import Sockmon.Dump.Walk

set_option autoImplicit false

/-! # Datagrams of well-formed messages

A datagram that is filled with messages laid end to end (`LaidOut`) is walked message by
message. Of the datagrams of a dump that succeeds, `connections_dump` hands over exactly the
messages that precede the first `NLMSG_DONE` (`msgs_eq`).
-/

namespace Sockmon

/-- From `nlh` on the datagram consists of messages at the given offsets, each of at least a
header, inside the datagram, and aligned. -/
inductive LaidOut (d : Datagram) : Nat → List Nat → Prop
  | nil {nlh : Nat} : d.sz ≤ nlh → LaidOut d nlh []
  | cons {nlh : Nat} {offs : List Nat} : NLMSG_HDRLEN ≤ nlmsgLen d.mem nlh →
      nlh + nlmsgLen d.mem nlh ≤ d.sz → LaidOut d (nlh + align4 (nlmsgLen d.mem nlh)) offs →
      LaidOut d nlh (nlh :: offs)

/-- The message is not `NLMSG_DONE`. -/
def notDone (m : Datagram × Nat) : Bool := nlmsgType m.1.mem m.2 != NLMSG_DONE

theorem align4_ge (len : Nat) : len ≤ align4 len := by
  unfold align4
  omega

theorem nlmsgOk_iff {mem : Ptr} {nlh : Nat} {sz : Int} : nlmsgOk mem nlh sz = true ↔
    16 ≤ sz ∧ 16 ≤ nlmsgLen mem nlh ∧ (nlmsgLen mem nlh : Int) ≤ sz := by
  unfold nlmsgOk NLMSG_HDRLEN
  simp [and_assoc]

/-- The messages of a datagram take up at least their headers. -/
theorem LaidOut.length_le {d : Datagram} {nlh : Nat} {offs : List Nat} (h : LaidOut d nlh offs) :
    nlh + 16 * offs.length ≤ max d.sz nlh := by
  induction h with
  | nil h => simp
  | @cons nlh offs hlen hin hrest ih =>
      have halign := align4_ge (nlmsgLen d.mem nlh)
      unfold NLMSG_HDRLEN at hlen
      rw [List.length_cons]
      omega

/-- How the walk over a datagram of well-formed messages ends: behind its last message, at the
first `NLMSG_DONE`, or at an error message. -/
theorem LaidOut.msgWalk {d : Datagram} {nlh fuel : Nat} {offs : List Nat} (h : LaidOut d nlh offs)
    (hfuel : offs.length < fuel) :
    (msgWalk d fuel nlh ((d.sz : Int) - nlh) = (offs, .next) ∧
        ∀ o ∈ offs, notDone (d, o) = true) ∨
      (msgWalk d fuel nlh ((d.sz : Int) - nlh) = (offs.takeWhile (fun o => notDone (d, o)), .done) ∧
        ∃ o ∈ offs, notDone (d, o) = false) ∨
      ∃ o, (Sockmon.msgWalk d fuel nlh ((d.sz : Int) - nlh)).2 = .error d o := by
  induction h generalizing fuel with
  | @nil nlh hend =>
      obtain ⟨k, rfl⟩ : ∃ k, fuel = k + 1 := ⟨fuel - 1, by simp at hfuel; omega⟩
      -- fewer bytes are left than a header takes: `NLMSG_OK` ends the loop
      have hok : nlmsgOk d.mem nlh ((d.sz : Int) - nlh) = false := by
        rw [Bool.eq_false_iff, Ne, nlmsgOk_iff]
        omega
      refine Or.inl ⟨?_, nofun⟩
      rw [Sockmon.msgWalk, hok]
      rfl
  | @cons nlh offs hlen hin hrest ih =>
      obtain ⟨k, rfl⟩ : ∃ k, fuel = k + 1 := ⟨fuel - 1, by simp at hfuel; omega⟩
      have hok : nlmsgOk d.mem nlh ((d.sz : Int) - nlh) = true := by
        rw [nlmsgOk_iff]
        unfold NLMSG_HDRLEN at hlen
        omega
      rw [Sockmon.msgWalk, hok, Bool.not_true, if_neg (by simp)]
      -- the two types that return, then the message that is dumped
      by_cases hdone : nlmsgType d.mem nlh = NLMSG_DONE
      · have hnot : notDone (d, nlh) = false := by simp [notDone, hdone]
        refine Or.inr (Or.inl ⟨?_, nlh, List.mem_cons_self, hnot⟩)
        rw [if_pos hdone, List.takeWhile_cons_of_neg (by simp [hnot])]
      · have hnot : notDone (d, nlh) = true := by simp [notDone, hdone]
        rw [if_neg hdone]
        by_cases herr : nlmsgType d.mem nlh = NLMSG_ERROR
        · rw [if_pos herr]
          exact Or.inr (Or.inr ⟨nlh, rfl⟩)
        · rw [if_neg herr]
          have hsz : (d.sz : Int) - nlh - (align4 (nlmsgLen d.mem nlh) : Nat) =
              (d.sz : Int) - (nlh + align4 (nlmsgLen d.mem nlh) : Nat) := by
            push_cast
            omega
          dsimp only
          rw [hsz]
          have hk : offs.length < k := by
            simp at hfuel
            omega
          rcases ih hk with ⟨hw, hall⟩ | ⟨hw, o, ho, hd⟩ | ⟨o, hw⟩
          · refine Or.inl ⟨by rw [hw], ?_⟩
            rw [List.forall_mem_cons]
            exact ⟨hnot, hall⟩
          · refine Or.inr (Or.inl ⟨?_, o, List.mem_cons_of_mem _ ho, hd⟩)
            rw [hw, List.takeWhile_cons, hnot]
            rfl
          · exact Or.inr (Or.inr ⟨o, hw⟩)

/-- A datagram with the offsets of its messages. -/
structure Packed where
  datagram : Datagram
  offs : List Nat
  laidOut : LaidOut datagram 0 offs

/-- The messages of a list of datagrams, in the order received. -/
def Packed.messages (ps : List Packed) : List (Datagram × Nat) :=
  ps.flatMap fun p => p.offs.map (p.datagram, ·)

theorem Packed.walk (p : Packed) :
    (msgWalk p.datagram (p.datagram.sz / NLMSG_HDRLEN + 1) 0 p.datagram.sz = (p.offs, .next) ∧
        ∀ m ∈ p.offs.map (p.datagram, ·), notDone m = true) ∨
      (∃ ms, msgWalk p.datagram (p.datagram.sz / NLMSG_HDRLEN + 1) 0 p.datagram.sz = (ms, .done) ∧
        ms.map (p.datagram, ·) = (p.offs.map (p.datagram, ·)).takeWhile notDone ∧
        ∃ m ∈ p.offs.map (p.datagram, ·), notDone m = false) ∨
      ∃ o, (msgWalk p.datagram (p.datagram.sz / NLMSG_HDRLEN + 1) 0 p.datagram.sz).2 =
        .error p.datagram o := by
  have hfuel : p.offs.length < p.datagram.sz / NLMSG_HDRLEN + 1 := by
    have hlen := p.laidOut.length_le
    unfold NLMSG_HDRLEN
    omega
  have hsz : ((p.datagram.sz : Int) - (0 : Nat)) = p.datagram.sz := by simp
  have hwalk := p.laidOut.msgWalk hfuel
  rw [hsz] at hwalk
  rcases hwalk with ⟨hw, hall⟩ | ⟨hw, o, ho, hd⟩ | ⟨o, hw⟩
  · refine Or.inl ⟨hw, ?_⟩
    rw [List.forall_mem_map]
    exact hall
  · refine Or.inr (Or.inl ⟨_, hw, ?_, (p.datagram, o), List.mem_map_of_mem ho, hd⟩)
    rw [List.takeWhile_map]
    rfl
  · exact Or.inr (Or.inr ⟨o, hw⟩)

/-- **Of datagrams of well-formed messages** the messages before `NLMSG_DONE` are handed over, if
the walk ends there and not at an error message. -/
theorem recvWalk_messages {ps : List Packed} {rest : List (Option Datagram)}
    (hdone : ∃ m ∈ Packed.messages ps, notDone m = false)
    (hend : (recvWalk (ps.map (fun p => some p.datagram) ++ rest)).2 = .done) :
    (recvWalk (ps.map (fun p => some p.datagram) ++ rest)).1 =
      (Packed.messages ps).takeWhile notDone := by
  induction ps with
  | nil =>
      obtain ⟨m, hm, -⟩ := hdone
      cases hm
  | cons p ps ih =>
      have hmsgs : Packed.messages (p :: ps) =
          p.offs.map (p.datagram, ·) ++ Packed.messages ps := List.flatMap_cons
      rw [hmsgs] at hdone ⊢
      rw [List.map_cons, List.cons_append, recvWalk] at hend ⊢
      rcases p.walk with ⟨hw, hall⟩ | ⟨ms, hw, hms, m, hm, hd⟩ | ⟨o, hw⟩
      · rw [hw] at hend ⊢
        -- the whole datagram is dumped, so `NLMSG_DONE` is in a later one
        have hrest : ∃ m ∈ Packed.messages ps, notDone m = false := by
          obtain ⟨m, hm, hd⟩ := hdone
          rcases List.mem_append.mp hm with hm | hm
          · rw [hall m hm] at hd
            cases hd
          · exact ⟨m, hm, hd⟩
        rw [List.takeWhile_append_of_pos hall]
        exact congrArg _ (ih hrest hend)
      · rw [hw]
        -- `NLMSG_DONE` is in this one: what follows it, here or later, is cut
        have hlt : ((p.offs.map (p.datagram, ·)).takeWhile notDone).length ≠
            (p.offs.map (p.datagram, ·)).length := by
          intro hlen
          have hprefix := List.takeWhile_prefix (l := p.offs.map (p.datagram, ·)) notDone
          have hself := hprefix.eq_of_length hlen
          have htrue := List.takeWhile_eq_self_iff.mp hself m hm
          rw [hd] at htrue
          cases htrue
        rw [List.takeWhile_append, if_neg hlt]
        exact hms
      · generalize msgWalk p.datagram (p.datagram.sz / NLMSG_HDRLEN + 1) 0 p.datagram.sz = w at *
        obtain ⟨ms, how⟩ := w
        cases hw
        cases hend

/-- In a dump of well-formed messages that succeeds. -/
theorem DumpEnv.msgs_eq {env : DumpEnv} {ps : List Packed} {rest : List (Option Datagram)}
    (hrecvs : env.recvs = ps.map (fun p => some p.datagram) ++ rest)
    (hdone : ∃ m ∈ Packed.messages ps, notDone m = false) (hend : (recvWalk env.recvs).2 = .done) :
    env.msgs = (Packed.messages ps).takeWhile notDone := by
  unfold DumpEnv.msgs
  rw [hrecvs] at hend ⊢
  exact recvWalk_messages hdone hend

end Sockmon
