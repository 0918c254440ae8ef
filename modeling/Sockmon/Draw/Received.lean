import Sockmon.Draw.Verdict

set_option autoImplicit false

/-! # What the rest of the dump changes

`n->ext_rcv` collects the extensions of all connections of a dump (`dumpExt`). `draw_protocol`
looks there before it looks at the connection, so a filter on an extension that nobody has is
passed over, and the same filter rejects a connection without the extension as soon as another
one has it. `shownAlike_iff` says for which connections this makes no difference.
-/

namespace Sockmon

open PartialTest

/-- A connection as `diag_dump` lists it: it always has the message and the addresses. -/
structure Listed extends ConnInfo where
  none_ext : hasBit ext INET_DIAG_NONE = true
  address_ext : hasBit ext INET_DIAG_ADDRESS = true

/-- `n->ext_rcv` behind a dump. -/
def dumpExt (conns : List ConnInfo) : BitVec 32 :=
  conns.foldl (fun ext ci => ext ||| ci.ext) (bit INET_DIAG_NONE ||| bit INET_DIAG_ADDRESS)

theorem hasBit_foldl (conns : List ConnInfo) (ext : BitVec 32) (k : Nat) :
    hasBit (conns.foldl (fun ext ci => ext ||| ci.ext) ext) k =
      (hasBit ext k || conns.any fun ci => hasBit ci.ext k) := by
  induction conns generalizing ext with
  | nil => simp
  | cons ci conns ih => rw [List.foldl_cons, ih, hasBit_or, List.any_cons, Bool.or_assoc]

theorem hasBit_dumpExt (conns : List ConnInfo) (k : Nat) : hasBit (dumpExt conns) k =
    (hasBit (bit INET_DIAG_NONE ||| bit INET_DIAG_ADDRESS) k ||
      conns.any fun ci => hasBit ci.ext k) :=
  hasBit_foldl conns _ k

theorem Listed.hasBit_start {ci : Listed} {k : Nat}
    (h : hasBit (bit INET_DIAG_NONE ||| bit INET_DIAG_ADDRESS) k = true) :
    hasBit ci.ext k = true := by
  simp only [hasBit_or, hasBit_bit, Bool.or_eq_true, decide_eq_true_eq] at h
  rcases h with ⟨-, rfl⟩ | ⟨-, rfl⟩
  · exact ci.none_ext
  · exact ci.address_ext

/-! ## The connection's own filters -/

/-- `draw_protocol` rejects the connection. -/
def Rejects (s : Sys) (stk : FieldInfo → Ptr) (y : Int) (ci : ConnInfo) : Prop :=
  ∃ writes, drawProtocol s stk y ci = some (true, writes)

theorem rejects_iff {s : Sys} {stk : FieldInfo → Ptr} {y : Int} {ci : ConnInfo} :
    Rejects s stk y ci ↔ accepts s.n.extRcv stk ci s.tcpFields = some false := by
  constructor
  · rintro ⟨w, hw⟩
    exact accepts_of_draw hw
  · intro h
    exact draw_of_accepts h

/-- The field lets the connection pass, if only the extensions of the connection itself were
received. -/
def Field.ownPasses (stk : FieldInfo → Ptr) (ci : ConnInfo) (f : Field) : Option Bool :=
  f.passes ci.ext stk ci

/-- There is an active filter on an extension that the connection lacks. -/
def Field.Lacked (ci : ConnInfo) (f : Field) : Prop :=
  f.enabled = true ∧ f.drawRow.isSome ∧ f.filterOn = true ∧ f.extRcv < 32 ∧
    hasBit ci.ext f.extRcv = false

/-- Whether a connection is shown depends on it and the filters only. -/
def ShownAlike (fields : List Field) (stk : FieldInfo → Ptr) (ci : Listed) : Prop :=
  ∀ (D D' : List Listed), ci ∈ D → ci ∈ D' → ∀ (s s' : Sys) (y y' : Int),
    s.tcpFields = fields → s'.tcpFields = fields →
    s.n.extRcv = dumpExt (D.map (·.toConnInfo)) → s'.n.extRcv = dumpExt (D'.map (·.toConnInfo)) →
    (Rejects s stk y ci.toConnInfo ↔ Rejects s' stk y' ci.toConnInfo)

/-- A filter on an extension of the connection rejects it, or the connection has the extensions
of all active filters (those behind a filter that has no result aside). -/
def OwnFiltersDecide (fields : List Field) (stk : FieldInfo → Ptr) (ci : ConnInfo) : Prop :=
  (∃ fs₁ f fs₂, fields = fs₁ ++ f :: fs₂ ∧ (∀ g ∈ fs₁, g.ownPasses stk ci = some true) ∧
    f.ownPasses stk ci = some false) ∨
  ∀ f ∈ fields.takeWhile fun f => (f.ownPasses stk ci).isSome, ¬ f.Lacked ci

section

variable {extRcv : BitVec 32} {stk : FieldInfo → Ptr} {ci : ConnInfo} {f : Field}

/-- A filter on an extension that the connection has is not affected by what else was
received. -/
theorem passes_of_ext (hsub : ∀ k, hasBit ci.ext k = true → hasBit extRcv k = true)
    (hext : hasBit ci.ext f.extRcv = true) :
    f.passes extRcv stk ci = f.ownPasses stk ci := by
  simp [Field.ownPasses, Field.passes, Field.hasColumn, hext, hsub _ hext]

theorem ownPasses_of_not_ext (hext : hasBit ci.ext f.extRcv = false) :
    f.ownPasses stk ci = some true := by
  simp [Field.ownPasses, Field.passes, Field.hasColumn, hext]

theorem passes_of_not_lacked (hext : hasBit ci.ext f.extRcv = false) (hf : ¬ f.Lacked ci) :
    f.passes extRcv stk ci = some true := by
  unfold Field.passes
  rw [if_neg]
  intro hcol
  simp only [Field.hasColumn, Bool.and_eq_true] at hcol
  obtain ⟨⟨⟨hen, hdraw⟩, hrcv⟩, hon⟩ := hcol
  refine hf ⟨hen, hdraw, hon, ?_, hext⟩
  rw [hasBit_eq] at hrcv
  exact BitVec.lt_of_getLsbD hrcv

theorem passes_of_lacked (hf : f.Lacked ci) (hrcv : hasBit extRcv f.extRcv = true) :
    f.passes extRcv stk ci = some false := by
  obtain ⟨hen, hdraw, hon, -, hext⟩ := hf
  simp [Field.passes, Field.hasColumn, hen, hdraw, hon, hrcv, hext]

/-- A filter that gives a result gives one whatever was received. -/
theorem passes_isSome (hsub : ∀ k, hasBit ci.ext k = true → hasBit extRcv k = true)
    (h : (f.ownPasses stk ci).isSome) : (f.passes extRcv stk ci).isSome := by
  by_cases hext : hasBit ci.ext f.extRcv = true
  · rw [passes_of_ext hsub hext]
    exact h
  · rw [Bool.not_eq_true] at hext
    unfold Field.passes
    rw [if_neg (by simp [hext] : ¬ hasBit ci.ext f.extRcv = true)]
    split <;> rfl

/-- Where the own filters decide, what else was received does not matter. -/
theorem accepts_of_ownFilters {fields : List Field}
    (hsub : ∀ k, hasBit ci.ext k = true → hasBit extRcv k = true)
    (h : OwnFiltersDecide fields stk ci) :
    accepts extRcv stk ci fields = some false ↔
      allOf (Field.ownPasses stk ci) fields = some false := by
  rcases h with ⟨fs₁, f, fs₂, rfl, hfs₁, hf⟩ | hno
  · have hext : hasBit ci.ext f.extRcv = true := by
      by_contra hext
      rw [Bool.not_eq_true] at hext
      rw [ownPasses_of_not_ext hext] at hf
      cases hf
    refine iff_of_true ?_ (allOf_eq_false.mpr ⟨fs₁, f, fs₂, rfl, hfs₁, hf⟩)
    refine allOf_eq_false_of (fun g hg => ?_) ?_
    · exact passes_isSome hsub (by rw [hfs₁ g hg]; rfl)
    · rw [passes_of_ext hsub hext, hf]
  · have hsame : accepts extRcv stk ci fields = allOf (Field.ownPasses stk ci) fields := by
      refine allOf_congr_until (fun g hg => ?_) fun g _ hnone => ?_
      · by_cases hext : hasBit ci.ext g.extRcv = true
        · exact passes_of_ext hsub hext
        · rw [Bool.not_eq_true] at hext
          rw [passes_of_not_lacked hext (hno g hg), ownPasses_of_not_ext hext]
      · have hext : hasBit ci.ext g.extRcv = true := by
          by_contra hext
          rw [Bool.not_eq_true] at hext
          rw [ownPasses_of_not_ext hext] at hnone
          cases hnone
        rw [passes_of_ext hsub hext, hnone]
    rw [hsame]

/-- Where they do not, some extension received with another connection rejects this one. -/
theorem exists_lacked {fields : List Field} (h : ¬ OwnFiltersDecide fields stk ci) :
    ∃ f : Field, f.Lacked ci ∧ ∀ extRcv, (∀ k, hasBit ci.ext k = true → hasBit extRcv k = true) →
      hasBit extRcv f.extRcv = true → accepts extRcv stk ci fields = some false := by
  unfold OwnFiltersDecide at h
  push Not at h
  obtain ⟨f, hf, hlacked⟩ := h.2
  refine ⟨f, hlacked, fun extRcv hsub hrcv => ?_⟩
  obtain ⟨fs₁, fs₂, hsplit⟩ := List.append_of_mem hf
  have hfields : fields = fs₁ ++ f :: (fs₂ ++
      fields.dropWhile fun f => (f.ownPasses stk ci).isSome) := by
    calc fields = _ ++ _ := (List.takeWhile_append_dropWhile).symm
      _ = _ := by rw [hsplit]; simp
  rw [hfields]
  refine allOf_eq_false_of (fun g hg => passes_isSome hsub ?_) (passes_of_lacked hlacked hrcv)
  have hmem : g ∈ fields.takeWhile fun f => (f.ownPasses stk ci).isSome := by
    rw [hsplit]
    exact List.mem_append_left _ hg
  exact List.mem_takeWhile_imp (p := fun f : Field => (f.ownPasses stk ci).isSome) hmem

end

/-! ## The result -/

/-- A state with these fields and extensions. -/
def Sys.withTable (fields : List Field) (extRcv : BitVec 32) : Sys :=
  { Start.quiet.state with
    n := { Start.quiet.state.n with extRcv }
    tcpFields := fields }

theorem ext_sub_dumpExt {ci : Listed} {D : List Listed} (h : ci ∈ D) (k : Nat)
    (hk : hasBit ci.ext k = true) : hasBit (dumpExt (D.map (·.toConnInfo))) k = true := by
  rw [hasBit_dumpExt, Bool.or_eq_true, List.any_eq_true]
  exact Or.inr ⟨ci.toConnInfo, List.mem_map_of_mem h, hk⟩

/-- A dump of one connection. -/
theorem dumpExt_single (ci : Listed) : dumpExt [ci.toConnInfo] = ci.ext := by
  refine hasBit_ext fun k => ?_
  rw [hasBit_dumpExt]
  cases hk : hasBit ci.ext k
  · have hstart : hasBit (bit INET_DIAG_NONE ||| bit INET_DIAG_ADDRESS) k = false := by
      by_contra h
      rw [Bool.not_eq_false] at h
      rw [ci.hasBit_start h] at hk
      cases hk
    simp [hstart, hk]
  · simp [hk]

/-- A connection that has the extension `k` besides the two that all have. -/
def Listed.carrying (k : Nat) : Listed where
  img := ConnInfo.zero.img
  ext := bit INET_DIAG_NONE ||| bit INET_DIAG_ADDRESS ||| bit k
  none_ext := by simp [INET_DIAG_NONE]
  address_ext := by simp [INET_DIAG_ADDRESS, INET_DIAG_MAX]

/-- **The rest of the dump does not matter to a connection exactly if its own filters decide.** -/
theorem shownAlike_iff (fields : List Field) (stk : FieldInfo → Ptr) (ci : Listed) :
    ShownAlike fields stk ci ↔ OwnFiltersDecide fields stk ci.toConnInfo := by
  constructor
  · intro h
    by_contra hown
    obtain ⟨f, hf, hrejects⟩ := exists_lacked hown
    -- Alone in the dump, the connection meets its own filters only.
    let other := Listed.carrying f.extRcv
    have halone := h [ci] [ci, other] (by simp) (by simp)
      (Sys.withTable fields (dumpExt [ci.toConnInfo]))
      (Sys.withTable fields (dumpExt [ci.toConnInfo, other.toConnInfo])) 1 1 rfl rfl rfl rfl
    rw [rejects_iff, rejects_iff] at halone
    have hboth : accepts (dumpExt [ci.toConnInfo, other.toConnInfo]) stk ci.toConnInfo fields =
        some false := by
      have hmem : ci ∈ [ci, other] := by simp
      have hmem' : other ∈ [ci, other] := by simp
      refine hrejects _ (ext_sub_dumpExt hmem) ?_
      have hother : hasBit other.ext f.extRcv = true := by
        show hasBit (_ ||| bit f.extRcv) f.extRcv = true
        simp [hf.2.2.2.1]
      exact ext_sub_dumpExt hmem' _ hother
    have hreject : accepts (dumpExt [ci.toConnInfo]) stk ci.toConnInfo fields = some false :=
      halone.mpr hboth
    rw [dumpExt_single] at hreject
    exact hown (Or.inl (allOf_eq_false.mp hreject))
  · intro h D D' hD hD' s s' y y' hs hs' hrcv hrcv'
    rw [rejects_iff, rejects_iff, hs, hs', hrcv, hrcv']
    rw [accepts_of_ownFilters (ext_sub_dumpExt hD) h,
      accepts_of_ownFilters (ext_sub_dumpExt hD') h]

/-- A filter on the type of service: a connection without it is shown as long as it is alone,
and not with another one that has it. -/
theorem filter_on_lacked : ¬ ∀ (fields : List Field) (stk : FieldInfo → Ptr) (ci : Listed),
    ShownAlike fields stk ci := by
  intro h
  let tos : Field := { (tcpFields.getD 16 (heading "" 0)) with
    enabled := true, filterOn := true, filter := some ⟨.eq, .v 0⟩ }
  let ci := Listed.carrying INET_DIAG_NONE
  let other := Listed.carrying INET_DIAG_TOS
  have halone := h [tos] (fun _ _ => 0) ci [ci] [ci, other] (by simp) (by simp)
    (Sys.withTable [tos] (dumpExt [ci.toConnInfo]))
    (Sys.withTable [tos] (dumpExt [ci.toConnInfo, other.toConnInfo])) 1 1 rfl rfl rfl rfl
  rw [rejects_iff, rejects_iff] at halone
  have hshown : accepts (dumpExt [ci.toConnInfo]) (fun _ _ => 0) ci.toConnInfo [tos] =
      some true := by decide +kernel
  have hrejected : accepts (dumpExt [ci.toConnInfo, other.toConnInfo]) (fun _ _ => 0)
      ci.toConnInfo [tos] = some false := by decide +kernel
  have hcontra := hshown.symm.trans (halone.mpr hrejected)
  cases hcontra

end Sockmon
