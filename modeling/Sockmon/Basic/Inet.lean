import Sockmon.Basic.CInt

set_option autoImplicit false

/-! # `inet_pton` and `inet_ntop`

The two address conversions of the C library, after glibc: a dotted quad without leading
zeros for `AF_INET`; up to eight groups of hexadecimal digits with at most one `::` and an
optional trailing dotted quad for `AF_INET6`. Addresses are lists of 4 or 16 bytes in network
order.
-/

namespace Sockmon

def AF_INET : Nat := 2
def AF_INET6 : Nat := 10

/-! ## From text -/

/-- The loop of `inet_pton4`: `tmp` holds the finished octets, `cur` the one being read. -/
def inetPton4Loop : List UInt8 → Bool → Nat → List UInt8 → Nat → Option (List UInt8)
  | [], _, octets, tmp, cur => if octets < 4 then none else some (tmp ++ [cur.toUInt8])
  | ch :: src, sawDigit, octets, tmp, cur =>
      if isdigit ch.toNat then
        let new := cur * 10 + (ch.toNat - 48)
        -- No leading zeros.
        if sawDigit && cur == 0 then none
        else if 255 < new then none
        else if sawDigit then inetPton4Loop src true octets tmp new
        else if 4 < octets + 1 then none
        else inetPton4Loop src true (octets + 1) tmp new
      else if ch == 46 && sawDigit then
        if octets == 4 then none else inetPton4Loop src false octets (tmp ++ [cur.toUInt8]) 0
      else none

def inetPton4 (src : List UInt8) : Option (List UInt8) := inetPton4Loop src false 0 [] 0

def hexDigitValue (ch : UInt8) : Option Nat :=
  if 48 ≤ ch && ch ≤ 57 then some (ch.toNat - 48)
  else if 97 ≤ ch && ch ≤ 102 then some (ch.toNat - 87)
  else if 65 ≤ ch && ch ≤ 70 then some (ch.toNat - 55)
  else none

/-- The two bytes of a group, in network order. -/
def group (val : Nat) : List UInt8 := [(val / 256).toUInt8, (val % 256).toUInt8]

/-- The loop of `inet_pton6`. `curtok` is where the current group starts, `out` the bytes
written so far and `colonp` the place of the `::` in them. The result also has the number of
digits of the last group and its value. -/
def inetPton6Loop : List UInt8 → List UInt8 → Nat → Nat → List UInt8 → Option Nat →
    Option (Nat × Nat × List UInt8 × Option Nat)
  | [], _, xdigits, val, out, colonp => some (xdigits, val, out, colonp)
  | ch :: src, curtok, xdigits, val, out, colonp =>
      match hexDigitValue ch with
      | some digit =>
          if xdigits = 4 then none
          else inetPton6Loop src curtok (xdigits + 1) (val * 16 + digit) out colonp
      | none =>
          if ch == 58 then
            if xdigits = 0 then
              -- A second `::` is an error.
              if colonp.isSome then none else inetPton6Loop src src 0 val out (some out.length)
            else if src = [] then none
            else if 16 < out.length + 2 then none
            else inetPton6Loop src src 0 0 (out ++ group val) colonp
          else if ch == 46 && out.length + 4 ≤ 16 then
            (inetPton4 curtok).map fun v4 => (0, 0, out ++ v4, colonp)
          else none

/-- What `inet_pton6` does after its loop: the last group, then the zeros of the `::`. -/
def inetPton6End : Nat × Nat × List UInt8 × Option Nat → Option (List UInt8)
  | (xdigits, val, out, colonp) =>
      if 0 < xdigits && 16 < out.length + 2 then none
      else
        let out := if 0 < xdigits then out ++ group val else out
        match colonp with
        | none => if out.length = 16 then some out else none
        | some c =>
            if out.length = 16 then none
            else some (out.take c ++ List.replicate (16 - out.length) 0 ++ out.drop c)

def inetPton6 (src : List UInt8) : Option (List UInt8) :=
  match src with
  | [] => none
  | ch :: rest =>
      if ch == 58 then
        if rest.head? == some 58 then
          (inetPton6Loop rest rest 0 0 [] none).bind inetPton6End
        else none
      else (inetPton6Loop src src 0 0 [] none).bind inetPton6End

/-- `inet_pton(af, src, dst) == 1`, with the bytes written to `dst`. -/
def inetPton (af : Nat) (src : List UInt8) : Option (List UInt8) :=
  if af = AF_INET then inetPton4 src
  else if af = AF_INET6 then inetPton6 src
  else none

/-! ## To text -/

def inetNtop4 (addr : List UInt8) : List UInt8 :=
  [46].intercalate ((addr.take 4).map fun b => digits b.toNat)

/-- The longest run of zero words: `(base, len)` of the first of the longest, scanning the
words with `cur` the run that ends here and `best` the best one that has ended. -/
def bestRun : List Nat → Nat → Option (Nat × Nat) → Option (Nat × Nat) → Option (Nat × Nat)
  | [], _, cur, best => longer cur best
  | w :: ws, i, cur, best =>
      if w = 0 then
        match cur with
        | none => bestRun ws (i + 1) (some (i, 1)) best
        | some (base, len) => bestRun ws (i + 1) (some (base, len + 1)) best
      else bestRun ws (i + 1) none (longer cur best)
where
  longer : Option (Nat × Nat) → Option (Nat × Nat) → Option (Nat × Nat)
    | some c, some b => if b.2 < c.2 then some c else some b
    | some c, none => some c
    | none, b => b

/-- The words from the `i`-th on as text; `best` is the run written as `::`. -/
def ntop6Words (addr : List UInt8) (words : List Nat) (best : Option (Nat × Nat)) :
    List Nat → Nat → List UInt8
  | [], _ =>
      match best with
      | some (base, len) => if base + len = 8 then [58] else []
      | none => []
  | w :: ws, i =>
      let inRun := best.any fun b => b.1 ≤ i && i < b.1 + b.2
      if inRun then
        (if best.any (·.1 == i) then [58] else []) ++ ntop6Words addr words best ws (i + 1)
      else
        let colon : List UInt8 := if i ≠ 0 then [58] else []
        let v4 := i == 6 &&
          (best == some (0, 6) || (best == some (0, 5) && words[5]? == some 0xffff))
        if v4 then colon ++ inetNtop4 (addr.drop 12)
        else colon ++ hexDigits w ++ ntop6Words addr words best ws (i + 1)

def inetNtop6 (addr : List UInt8) : List UInt8 :=
  let words := (List.range 8).map fun i =>
    256 * (addr.getD (2 * i) 0).toNat + (addr.getD (2 * i + 1) 0).toNat
  let best := (bestRun words 0 none none).filter fun b => 2 ≤ b.2
  ntop6Words addr words best words 0

/-- `inet_ntop`: no text for a family it does not know. -/
def inetNtop (af : Nat) (addr : List UInt8) : Option (List UInt8) :=
  if af = AF_INET then some (inetNtop4 addr)
  else if af = AF_INET6 then some (inetNtop6 addr)
  else none

end Sockmon
