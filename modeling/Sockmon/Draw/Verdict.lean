import Sockmon.Lib.AllOf
import Sockmon.System.Main

set_option autoImplicit false

/-! # Which connections are shown

`draw_protocol` applies the filters while it draws, between skipping columns and clipping them.
What it returns depends on the filters only: they are tested in the order of the table until
one rejects (`drawProtocol_verdict`). So neither the position, the width of the terminal nor the
pinned bits matter to it. The order of the fields matters if a filter has no result for the
connection, since it may or may not be reached (`oneVerdict_iff`). The extensions received with
the other connections do matter (`shownAlike_iff`): a filter on an extension that the connection
lacks is passed over as long as no connection of the dump has it.
-/

namespace Sockmon

open PartialTest

/-! ## The field loop -/

/-- The field has a column. -/
def Field.hasColumn (extRcv : BitVec 32) (f : Field) : Bool :=
  f.enabled && f.drawRow.isSome && hasBit extRcv f.extRcv

/-- What `filter_apply` returns. -/
def Field.filterResult (stk : FieldInfo → Ptr) (ci : ConnInfo) (f : Field) : Option Bool :=
  f.filterApply.bind fun g => g.apply (stk f.toFieldInfo) f (ci.ptr f.offset)

/-- The field lets the connection pass. -/
def Field.passes (extRcv : BitVec 32) (stk : FieldInfo → Ptr) (ci : ConnInfo) (f : Field) :
    Option Bool :=
  if f.hasColumn extRcv && f.filterOn then
    if hasBit ci.ext f.extRcv then f.filterResult stk ci else some false
  else some true

/-- All fields let the connection pass. -/
def accepts (extRcv : BitVec 32) (stk : FieldInfo → Ptr) (ci : ConnInfo) (fs : List Field) :
    Option Bool :=
  allOf (Field.passes extRcv stk ci) fs

/-- The text of a cell: blank if the connection lacks the extension. -/
def cellText (n : NmCtx) (ci : ConnInfo) (f : Field) : List UInt8 :=
  if hasBit ci.ext f.extRcv then
    match f.drawRow with
    | some drawRow => drawRow.text f.toFieldInfo (ci.ptr f.offset)
    | none => []
  else padLeft (columnWidth n.family f.toFieldInfo) []

/-- What is printed for a cell that starts at `x`, or one column further on behind another. -/
def cellWrites (n : NmCtx) (y : Int) (ci : ConnInfo) (x : Int) (drawn : Bool) (f : Field) :
    List Write :=
  (if drawn then nmMvwprintw n.cols y x (bytes " ") else [])
    ++ nmMvwprintw n.cols y (if drawn then x + 1 else x) (cellText n ci f)

section

variable {n : NmCtx} {stk : FieldInfo → Ptr} {y : Int} {ci : ConnInfo} {f : Field}
  {fs : List Field} {x skipX : Int} {drawn : Bool}

theorem drawProtocolLoop_noColumn (h : f.hasColumn n.extRcv = false) :
    drawProtocolLoop n stk y ci (f :: fs) x skipX drawn =
      drawProtocolLoop n stk y ci fs x skipX drawn := by
  rw [drawProtocolLoop]
  split
  · rfl
  · rfl
  · have hrcv : hasBit n.extRcv f.extRcv = false := by
      simpa [Field.hasColumn, *] using h
    simp [hrcv]

/-- One round of the loop for a field with a column: its filter, then its cell. -/
theorem drawProtocolLoop_column (h : f.hasColumn n.extRcv = true) :
    drawProtocolLoop n stk y ci (f :: fs) x skipX drawn =
      (f.passes n.extRcv stk ci).bind fun pass =>
        if pass then
          if 0 < skipX ∧ !f.pinned then drawProtocolLoop n stk y ci fs x (skipX - 1) drawn
          else
            (drawProtocolLoop n stk y ci fs
              ((if drawn then x + 1 else x) + columnWidth n.family f.toFieldInfo) skipX true).map
              fun r => (r.1, cellWrites n y ci x drawn f ++ r.2)
        else some (true, []) := by
  have hparts : f.enabled = true ∧ f.drawRow.isSome = true ∧ hasBit n.extRcv f.extRcv = true := by
    simpa [Field.hasColumn, and_assoc] using h
  obtain ⟨hen, hdraw, hrcv⟩ := hparts
  obtain ⟨d, hd⟩ := Option.isSome_iff_exists.mp hdraw
  unfold Field.passes Field.filterResult cellWrites cellText
  rw [drawProtocolLoop, h, hen, hd, hrcv]
  simp only [Bool.not_true, Bool.false_eq_true, if_false, Bool.true_and, Option.bind_eq_bind,
    Option.pure_def, Option.map_eq_bind]
  cases f.filterOn with
  | false => rfl
  | true =>
      cases hasBit ci.ext f.extRcv with
      | false => rfl
      | true =>
          cases f.filterApply with
          | none => rfl
          | some g =>
              cases hg : g.apply (stk f.toFieldInfo) f (ci.ptr f.offset) with
              | none => simp [hg]
              | some b => cases b <;> simp [hg]

end

/-- **The field loop** returns the opposite of `accepts`, wherever it draws. -/
theorem drawProtocolLoop_verdict (n : NmCtx) (stk : FieldInfo → Ptr) (y : Int) (ci : ConnInfo)
    (fs : List Field) (x skipX : Int) (drawn : Bool) :
    (drawProtocolLoop n stk y ci fs x skipX drawn).map (·.1) =
      (accepts n.extRcv stk ci fs).map (!·) := by
  induction fs generalizing x skipX drawn with
  | nil => rfl
  | cons f fs ih =>
      cases hcol : f.hasColumn n.extRcv
      · have hpass : f.passes n.extRcv stk ci = some true := by simp [Field.passes, hcol]
        rw [drawProtocolLoop_noColumn hcol, accepts, allOf, hpass]
        exact ih x skipX drawn
      · rw [drawProtocolLoop_column hcol, accepts, allOf]
        cases hpass : f.passes n.extRcv stk ci with
        | none => rfl
        | some pass =>
            cases pass with
            | false => rfl
            | true =>
                simp only [Option.bind_some, if_true]
                split
                · exact ih x (skipX - 1) drawn
                · rw [Option.map_map]
                  exact ih _ skipX true

/-- **What `draw_protocol` returns** is whether some filter rejects the connection. -/
theorem drawProtocol_verdict (s : Sys) (stk : FieldInfo → Ptr) (y : Int) (ci : ConnInfo) :
    (drawProtocol s stk y ci).map (·.1) =
      (accepts s.n.extRcv stk ci s.tcpFields).map (!·) :=
  drawProtocolLoop_verdict _ _ _ _ _ _ _ _

theorem accepts_of_draw {s : Sys} {stk : FieldInfo → Ptr} {y : Int} {ci : ConnInfo}
    {rewind : Bool} {w : List Write} (h : drawProtocol s stk y ci = some (rewind, w)) :
    accepts s.n.extRcv stk ci s.tcpFields = some (!rewind) := by
  have hv := drawProtocol_verdict s stk y ci
  rw [h] at hv
  obtain ⟨b, hb, hbr⟩ := Option.map_eq_some_iff.mp hv.symm
  have hnot : (!b) = rewind := hbr
  rw [hb, ← hnot, Bool.not_not]

theorem draw_of_accepts {s : Sys} {stk : FieldInfo → Ptr} {y : Int} {ci : ConnInfo} {b : Bool}
    (h : accepts s.n.extRcv stk ci s.tcpFields = some b) :
    ∃ w, drawProtocol s stk y ci = some (!b, w) := by
  have hv := drawProtocol_verdict s stk y ci
  rw [h] at hv
  obtain ⟨⟨rewind, w⟩, hr, hrb⟩ := Option.map_eq_some_iff.mp hv
  exact ⟨w, by rw [hr, ← show rewind = !b from hrb]⟩

/-! ## Columns -/

/-- The field with its pinned bit cleared. -/
def Field.unpinned (f : Field) : Field := { f with pinned := false }

/-- The same fields with the same filters, in any order and pinned in any way. -/
def SameFilters (fs fs' : List Field) : Prop :=
  (fs'.map Field.unpinned).Perm (fs.map Field.unpinned)

/-- Every filter that is looked at in some order gives a result. -/
def FiltersDefined (extRcv : BitVec 32) (stk : FieldInfo → Ptr) (ci : ConnInfo)
    (fs : List Field) : Prop :=
  ∀ f ∈ fs, (f.passes extRcv stk ci).isSome

/-- Whatever the order of the fields, what is pinned, where the list is scrolled to and how wide
the terminal is: `draw_protocol` has a result for the connection, and always the same. -/
def OneVerdict (s : Sys) (stk : FieldInfo → Ptr) (ci : ConnInfo) : Prop :=
  ∃ rewind, ∀ (t : Sys) (y : Int), SameFilters s.tcpFields t.tcpFields →
    t.n.extRcv = s.n.extRcv → (drawProtocol t stk y ci).map (·.1) = some rewind

/-- The field has the type that a helper which applies its filter through a local variable is
written for. -/
def FieldInfo.localFits (f : FieldInfo) : Bool :=
  match f.filterApply with
  | some .faSndWscale | some .faRcvWscale | some .faDeliveryRateAppLimited
  | some .faFastopenClientFail | some .faEcnMode | some .faAccecnOptSeen
  | some .faBindAddressNoPort | some .faRecverrRfc4884 | some .faDeferConnect => f.type == .u8
  | some .faVegasEnabled => f.type == .boolU32
  | some .faDctcpEnabled => f.type == .boolU16
  | some .faBbrBw => f.type == .u64
  | _ => true

theorem tcpFields_localFits : ∀ f ∈ tcpFields.map (·.toFieldInfo), f.localFits = true := by
  decide +kernel

/-- The fields of a table that has the entries of the program, in the same order. -/
theorem mem_tcpFields {fs : List Field}
    (h : fs.map (·.toFieldInfo) = tcpFields.map (·.toFieldInfo)) :
    ∀ f ∈ fs, f.toFieldInfo ∈ tcpFields.map (·.toFieldInfo) := by
  rw [← h]
  exact fun f hf => List.mem_map_of_mem hf

theorem isSelected_lt {f : Field} {i : Nat} {b : Bool} (h : isSelected f i = some b) : i < 32 := by
  obtain ⟨flt, -, h⟩ := bind_some h
  obtain ⟨selected, -, h⟩ := bind_some h
  split at h
  · assumption
  · cases h

/-- What lies behind the local variable matters to no result: the helpers that read past it
shift by what they read. -/
theorem isSelected_local {f : Field} {v i i' : Nat} {b b' : Bool} (hi : i % 256 = v)
    (hi' : i' % 256 = v) (h : isSelected f i = some b) (h' : isSelected f i' = some b') :
    b = b' := by
  have hlt := isSelected_lt h
  have hlt' := isSelected_lt h'
  obtain rfl : i = i' := by omega
  exact Option.some.inj (h.symm.trans h')

theorem rdU16_localVar (v : Nat) (stk : Ptr) : rdU16 (localVar 1 v stk) % 256 = v % 256 := by
  simp [rdU16, localVar]

theorem rdU32_localVar (v : Nat) (stk : Ptr) : rdU32 (localVar 1 v stk) % 256 = v % 256 := by
  have h := rdU16_localVar v stk
  unfold rdU32
  omega

theorem filterResult_agree {stk stk' : FieldInfo → Ptr} {ci : ConnInfo} {f : Field}
    {b b' : Bool} (hfits : f.localFits = true) (h : f.filterResult stk ci = some b)
    (h' : f.filterResult stk' ci = some b') : b = b' := by
  unfold Field.filterResult at h h'
  unfold FieldInfo.localFits at hfits
  cases hg : f.filterApply with
  | none => rw [hg] at h; cases h
  | some g =>
      rw [hg] at h h' hfits
      rw [Option.bind_some] at h h'
      have heq : g.apply (stk f.toFieldInfo) f (ci.ptr f.offset) =
          g.apply (stk' f.toFieldInfo) f (ci.ptr f.offset) → b = b' := by
        intro he
        rw [he, h'] at h
        exact (Option.some.inj h).symm
      cases g with
      | faCommon | faSrc | faDst | faStrCommon | faString | faOptions | faAccecnFailMode =>
          exact heq rfl
      | faSndWscale | faRcvWscale =>
          have ht : f.type = .u8 := by simpa using hfits
          apply heq
          simp [FilterApply.apply, faSndWscale, faRcvWscale, faCommon, ht]
      | faDeliveryRateAppLimited | faFastopenClientFail | faEcnMode | faAccecnOptSeen
        | faBindAddressNoPort | faRecverrRfc4884 | faDeferConnect =>
          have ht : f.type = .u8 := by simpa using hfits
          apply heq
          simp [FilterApply.apply, faDeliveryRateAppLimited, faFastopenClientFail, faEcnMode,
            faAccecnOptSeen, faBindAddressNoPort, faRecverrRfc4884, faDeferConnect, faBits,
            faStrCommon, ht]
      | faBbrBw =>
          have ht : f.type = .u64 := by simpa using hfits
          apply heq
          simp [FilterApply.apply, faBbrBw, faCommon, ht, rdU64_localVar]
      | faVegasEnabled =>
          have ht : f.type = .boolU32 := by simpa using hfits
          simp only [FilterApply.apply, faVegasEnabled, faStrCommon, ht] at h h'
          exact isSelected_local (rdU32_localVar _ _) (rdU32_localVar _ _) h h'
      | faDctcpEnabled =>
          have ht : f.type = .boolU16 := by simpa using hfits
          simp only [FilterApply.apply, faDctcpEnabled, faStrCommon, ht] at h h'
          exact isSelected_local (rdU16_localVar _ _) (rdU16_localVar _ _) h h'

/-- No filter looks at the pinned bit. -/
theorem passes_unpinned (extRcv : BitVec 32) (stk : FieldInfo → Ptr) (ci : ConnInfo)
    (f : Field) : f.unpinned.passes extRcv stk ci = f.passes extRcv stk ci := by
  have hresult : f.unpinned.filterResult stk ci = f.filterResult stk ci := by
    unfold Field.filterResult
    show (f.filterApply.bind fun g => g.apply _ f.unpinned _) = f.filterApply.bind _
    cases f.filterApply with
    | none => rfl
    | some g => cases g <;> rfl
  unfold Field.passes
  rw [hresult]
  rfl

theorem accepts_unpinned (extRcv : BitVec 32) (stk : FieldInfo → Ptr) (ci : ConnInfo)
    (fs : List Field) :
    accepts extRcv stk ci (fs.map Field.unpinned) = accepts extRcv stk ci fs := by
  unfold accepts
  rw [allOf_map]
  exact allOf_congr fun f _ => passes_unpinned extRcv stk ci f

theorem passes_agree {extRcv : BitVec 32} {stk stk' : FieldInfo → Ptr} {ci : ConnInfo} {f : Field}
    {b b' : Bool} (hfits : f.localFits = true) (h : f.passes extRcv stk ci = some b)
    (h' : f.passes extRcv stk' ci = some b') : b = b' := by
  unfold Field.passes at h h'
  split_ifs at h h'
  · exact filterResult_agree hfits h h'
  · exact Option.some.inj (h.symm.trans h')
  · exact Option.some.inj (h.symm.trans h')

section

variable {s t : Sys} {stk stk' : FieldInfo → Ptr} {y y' : Int} {ci : ConnInfo}

/-- **In the same order** the filters are tested alike, wherever the columns stand. -/
theorem verdict_sameOrder (hsame : t.tcpFields.map Field.unpinned = s.tcpFields.map Field.unpinned)
    (hrcv : t.n.extRcv = s.n.extRcv) :
    (drawProtocol t stk y' ci).map (·.1) = (drawProtocol s stk y ci).map (·.1) := by
  rw [drawProtocol_verdict, drawProtocol_verdict, hrcv, ← accepts_unpinned _ _ _ t.tcpFields, hsame,
    accepts_unpinned]

/-- **In two orders** the filters do not contradict each other, whatever lies on the stack. -/
theorem accepts_agree (htable : ∀ f ∈ s.tcpFields, f.toFieldInfo ∈ tcpFields.map (·.toFieldInfo))
    (hsame : SameFilters s.tcpFields t.tcpFields) (hrcv : t.n.extRcv = s.n.extRcv) {b b' : Bool}
    (hb : accepts s.n.extRcv stk ci s.tcpFields = some b)
    (hb' : accepts t.n.extRcv stk' ci t.tcpFields = some b') : b = b' := by
  have hmem : ∀ f, f ∈ s.tcpFields.map Field.unpinned ↔ f ∈ t.tcpFields.map Field.unpinned :=
    fun f => hsame.mem_iff.symm
  have hagree : ∀ f ∈ s.tcpFields.map Field.unpinned, ∀ b b',
      f.passes s.n.extRcv stk ci = some b → f.passes s.n.extRcv stk' ci = some b' → b = b' := by
    intro f hf b b' hb hb'
    obtain ⟨g, hg, rfl⟩ := List.mem_map.mp hf
    have hfits : g.unpinned.localFits = true := tcpFields_localFits _ (htable g hg)
    exact passes_agree hfits hb hb'
  rw [← accepts_unpinned] at hb hb'
  rw [hrcv] at hb'
  exact allOf_agree hmem hagree hb hb'

theorem filtersDefined_unpinned {extRcv : BitVec 32} {fs : List Field} :
    (∀ f ∈ fs.map Field.unpinned, (f.passes extRcv stk ci).isSome) ↔
      FiltersDefined extRcv stk ci fs := by
  unfold FiltersDefined
  rw [List.forall_mem_map]
  simp only [passes_unpinned]

/-- **One result in all orders** takes that every filter has one. -/
theorem oneVerdict_iff_defined
    (htable : ∀ f ∈ s.tcpFields, f.toFieldInfo ∈ tcpFields.map (·.toFieldInfo)) :
    OneVerdict s stk ci ↔ FiltersDefined s.n.extRcv stk ci s.tcpFields := by
  have hsome : ∀ fs, FiltersDefined s.n.extRcv stk ci fs →
      ∃ b, accepts s.n.extRcv stk ci fs = some b :=
    fun fs hdef => Option.isSome_iff_exists.mp (allOf_isSome hdef)
  constructor
  · -- With a field in front its filter is the first that is tested.
    rintro ⟨rewind, hall⟩
    refine isSome_of_forall_perm fun fs hperm => ?_
    have hone := hall { s with tcpFields := fs } 0 (hperm.map Field.unpinned) rfl
    rw [drawProtocol_verdict] at hone
    obtain ⟨b, hb, -⟩ := Option.map_eq_some_iff.mp hone
    exact Option.isSome_of_eq_some hb
  · intro hdef
    obtain ⟨b, hb⟩ := hsome s.tcpFields hdef
    refine ⟨!b, fun t y hsame hrcv => ?_⟩
    have hdef' : FiltersDefined s.n.extRcv stk ci t.tcpFields := by
      rw [← filtersDefined_unpinned] at hdef ⊢
      exact fun f hf => hdef f (hsame.mem_iff.mp hf)
    obtain ⟨b', hb'⟩ := hsome t.tcpFields hdef'
    rw [← hrcv] at hb'
    obtain rfl := accepts_agree htable hsame hrcv hb hb'
    rw [drawProtocol_verdict, hb']
    rfl

end

/-- **Columns and what is shown.** For a connection and a table with any filters: in the order of
the table the result, or that there is none, is the same whatever is pinned, scrolled off or
clipped; two orders never contradict each other, whatever lies on the stack; and there is one
result in all orders exactly if every filter has one. -/
theorem oneVerdict_iff (s : Sys)
    (htable : ∀ f ∈ s.tcpFields, f.toFieldInfo ∈ tcpFields.map (·.toFieldInfo)) (ci : ConnInfo) :
    (∀ (t : Sys) (stk : FieldInfo → Ptr) (y y' : Int),
      t.tcpFields.map Field.unpinned = s.tcpFields.map Field.unpinned → t.n.extRcv = s.n.extRcv →
        (drawProtocol t stk y' ci).map (·.1) = (drawProtocol s stk y ci).map (·.1)) ∧
    (∀ (t : Sys) (stk stk' : FieldInfo → Ptr) (y y' : Int) rewind rewind' w w',
      SameFilters s.tcpFields t.tcpFields → t.n.extRcv = s.n.extRcv →
        drawProtocol s stk y ci = some (rewind, w) →
          drawProtocol t stk' y' ci = some (rewind', w') → rewind = rewind') ∧
    (∀ stk, OneVerdict s stk ci ↔ FiltersDefined s.n.extRcv stk ci s.tcpFields) := by
  -- the first filter that rejects decides alone, so the order only matters for having a result
  refine ⟨fun t stk y y' hsame hrcv => verdict_sameOrder hsame hrcv, ?_,
    fun stk => oneVerdict_iff_defined htable⟩
  intro t stk stk' y y' rewind rewind' w w' hsame hrcv hr hr'
  have hnot := accepts_agree htable hsame hrcv (accepts_of_draw hr) (accepts_of_draw hr')
  simpa using hnot

/-- The remote port is to be 22, and the state ESTABLISHED or LISTEN: a closed connection from
port 0 has one result. -/
theorem oneVerdict_iff_port22 :
    let dport : Field := { (tcpFields.getD 4 (heading "" 0)) with
      filterOn := true, filter := some ⟨.eq, .v 22⟩ }
    let state : Field := { (tcpFields.getD 5 (heading "" 0)) with
      filterOn := true, filter := some ⟨.other, .selected (bit 1 ||| bit 10)⟩ }
    let s := { Start.quiet.state with
      n := { Start.quiet.state.n with extRcv := bit INET_DIAG_NONE }
      tcpFields := (tcpFields.set 4 dport).set 5 state }
    let ci : ConnInfo := { ConnInfo.zero with ext := bit INET_DIAG_NONE }
    OneVerdict s (fun _ _ => 0) ci := by
  intro dport state s ci
  have htable : ∀ f ∈ s.tcpFields, f.toFieldInfo ∈ tcpFields.map (·.toFieldInfo) :=
    mem_tcpFields (by decide +kernel)
  have hdef : ∀ f ∈ s.tcpFields, (f.passes s.n.extRcv (fun _ _ => 0) ci).isSome := by
    decide +kernel
  exact ((oneVerdict_iff s htable ci).2.2 (fun _ _ => 0)).mpr hdef

/-- The local port is to be 22 and Vegas enabled. A connection from port 0 is rejected for its
port, but with the field of Vegas in front its filter is tested first, which looks up what it
finds on the stack. -/
theorem vegas_in_front :
    ¬ ∀ (s : Sys) (stk : FieldInfo → Ptr) (ci : ConnInfo),
      (∀ f ∈ s.tcpFields, f.toFieldInfo ∈ tcpFields.map (·.toFieldInfo)) →
      (∀ f ∈ s.tcpFields, f.filterOn = true → f.filter.isSome) → OneVerdict s stk ci := by
  intro h
  let sport : Field := { (tcpFields.getD 2 (heading "" 0)) with
    filterOn := true, filter := some ⟨.eq, .v 22⟩ }
  let vegas : Field := { (tcpFields.getD 102 (heading "" 0)) with
    enabled := true, filterOn := true, filter := some ⟨.other, .selected (bit 1)⟩ }
  let fields := (tcpFields.set 2 sport).set 102 vegas
  let ext := bit INET_DIAG_NONE ||| bit INET_DIAG_VEGASINFO
  let s := { Start.quiet.state with
    n := { Start.quiet.state.n with extRcv := ext }, tcpFields := fields }
  let ci : ConnInfo := ⟨fun i => if i = ofConnInfo.ccInfo then 1 else 0, ext⟩
  have htable : s.tcpFields.map (·.toFieldInfo) = Sockmon.tcpFields.map (·.toFieldInfo) := by
    decide +kernel
  obtain ⟨rewind, hall⟩ := h s (fun _ _ => 1) ci (mem_tcpFields htable) (by decide +kernel)
  have hget : fields[102]? = some vegas := by decide +kernel
  obtain ⟨hlt, hvegas⟩ := List.getElem?_eq_some_iff.mp hget
  have hperm : (vegas :: fields.eraseIdx 102).Perm fields := by
    rw [← hvegas]
    exact List.getElem_cons_eraseIdx_perm hlt
  have hfront := hall { s with tcpFields := vegas :: fields.eraseIdx 102 } 1
    (hperm.map Field.unpinned) rfl
  have hnone : (drawProtocol { s with tcpFields := vegas :: fields.eraseIdx 102 } (fun _ _ => 1) 1
      ci).map (·.1) = none := by decide +kernel
  rw [hnone] at hfront
  cases hfront

end Sockmon
