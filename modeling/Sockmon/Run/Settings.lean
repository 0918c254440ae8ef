import Sockmon.Run.Keys

set_option autoImplicit false

/-! # What the frames are asked for

The family, the protocol and the width of the window are settings of the main screen and of the
terminal. In every run the family is one of two, the protocol is one of two, and the window is
not empty (`SettingsSound`).
-/

namespace Sockmon

open Transition

structure SettingsSound (s : Sys) : Prop where
  family : s.n.family = AF_INET ∨ s.n.family = AF_INET6
  protocol : s.n.protocol = IPPROTO_TCP ∨ s.n.protocol = IPPROTO_UDP
  cols : 0 < s.n.cols

/-- The settings that only the main screen and the terminal change. -/
structure Asked where
  family : Nat
  protocol : Nat
  cols : Int

def Sys.asked (s : Sys) : Asked := ⟨s.n.family, s.n.protocol, s.n.cols⟩

theorem SettingsSound.congr {s t : Sys} (hs : SettingsSound s) (h : t.asked = s.asked) :
    SettingsSound t where
  family := by
    rw [show t.n.family = s.n.family from congrArg Asked.family h]
    exact hs.family
  protocol := by
    rw [show t.n.protocol = s.n.protocol from congrArg Asked.protocol h]
    exact hs.protocol
  cols := by
    rw [show t.n.cols = s.n.cols from congrArg Asked.cols h]
    exact hs.cols

/-- No key of the field screen changes them. -/
theorem FieldStep.asked {h : FieldHandler} {s t : Sys} {keys : List Key}
    (hstep : FieldStep s keys h t) : t.asked = s.asked := by
  cases hstep with
  | sort =>
      unfold Sys.asked toggleSortKey
      split_ifs <;> rfl
  | move sel f u hsel hf hd hne hu =>
      show u.asked = _
      rw [(moveLoop_moved hu).frame]
      rfl
  | quit | idle | space | pin | noFilter | setFilter | clearFilter | cursor | pick => rfl

/-- A key of the main screen sets one of the two families, or one of the two protocols, or
neither. -/
theorem MainHandler.asked {h : MainHandler} {s t : Sys} {keys rest : List Key}
    (hrun : h.run s keys = some (t, rest)) : t.asked = s.asked ∨
      (∃ fam, (fam = AF_INET ∨ fam = AF_INET6) ∧ t.asked = { s.asked with family := fam }) ∨
      (∃ prot, (prot = IPPROTO_TCP ∨ prot = IPPROTO_UDP) ∧
        t.asked = { s.asked with protocol := prot }) := by
  cases h with
  | ip =>
      cases hrun
      exact Or.inr (Or.inl ⟨AF_INET, Or.inl rfl, rfl⟩)
  | ip6 =>
      cases hrun
      exact Or.inr (Or.inl ⟨AF_INET6, Or.inr rfl, rfl⟩)
  | tcp =>
      cases hrun
      exact Or.inr (Or.inr ⟨IPPROTO_TCP, Or.inl rfl, rfl⟩)
  | udp =>
      cases hrun
      exact Or.inr (Or.inr ⟨IPPROTO_UDP, Or.inr rfl, rfl⟩)
  | quit | help | keyDown | keyRight | keyPgdn =>
      cases hrun
      exact Or.inl rfl
  | field =>
      obtain ⟨u, hu, he⟩ := Option.map_eq_some_iff.mp hrun
      cases he
      rw [drawFieldHeader_onField hu]
      exact Or.inl rfl
  | delay =>
      obtain ⟨⟨d, seenNl, ks⟩, -, hrun⟩ := bind_some hrun
      cases seenNl with
      | false =>
          obtain ⟨ks', -, hrun⟩ := bind_some hrun
          cases hrun
          exact Or.inl rfl
      | true =>
          dsimp only at hrun
          rw [if_pos rfl] at hrun
          split at hrun <;> (cases hrun; exact Or.inl rfl)
  | keyUp =>
      cases hrun
      unfold mainKeyUpHandler
      split <;> exact Or.inl rfl
  | keyLeft =>
      cases hrun
      unfold mainKeyLeftHandler
      split <;> exact Or.inl rfl
  | keyPgup =>
      cases hrun
      unfold mainKeyPgupHandler
      split <;> exact Or.inl rfl

theorem settingsSound_input {s t : Sys} {i : Input} (hs : SettingsSound s)
    (hi : InputStep s i t) : SettingsSound t := by
  cases hi with
  | idle => exact hs
  | resize => exact ⟨hs.family, hs.protocol, i.size.cols_pos⟩
  | help => exact ⟨hs.family, hs.protocol, hs.cols⟩
  | main h t hk hrun =>
      rcases MainHandler.asked hrun with h | ⟨fam, hfam, h⟩ | ⟨prot, hprot, h⟩
      · exact hs.congr h
      · have hset : SettingsSound { s with n := { s.n with family := fam } } :=
          ⟨hfam, hs.protocol, hs.cols⟩
        exact hset.congr h
      · have hset : SettingsSound { s with n := { s.n with protocol := prot } } :=
          ⟨hs.family, hprot, hs.cols⟩
        exact hset.congr h
  | field h t hc hk hstep => exact hs.congr hstep.asked

theorem settingsSound_quiet {s t : Sys} (h : Quiet s t) (hs : SettingsSound s) :
    SettingsSound t := by
  have hasked : t.asked = s.asked :=
    h.proj (fun ui : Ui => (⟨ui.family, ui.protocol, ui.cols⟩ : Asked)) fun _ _ => rfl
  exact hs.congr hasked

theorem settingsSound_start (b : Start) : SettingsSound b.state := by
  have hboot : SettingsSound (Sys.boot b.size b.allocs) :=
    ⟨Or.inl rfl, Or.inl rfl, b.size.cols_pos⟩
  exact settingsSound_quiet (Or.inl b.ui) hboot

theorem settingsSound_step {s t : Sys} {e : Event} (hs : SettingsSound s)
    (h : step s e = some t) : SettingsSound t :=
  step_invariant (fun _ _ hq hs => settingsSound_quiet hq hs)
    (fun _ _ _ hs hi => settingsSound_input hs hi) hs h

end Sockmon
