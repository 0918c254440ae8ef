import Sockmon.Dump.Walk
import Sockmon.Proc.Table
import Sockmon.Run.Frame

set_option autoImplicit false

/-! # The parts of a frame

The body of the main loop builds the map of socket owners, dumps the connections, draws them and
frees the map. `Body` lists how it can go, with the state at each of these calls. Before it
stands what the functions of `proc.c` do to `struct nm_ctx`: they report an error, if they do
not succeed.
-/

namespace Sockmon

/-! ## What the scan does to the context -/

/-- A function that returns `ret` has changed nothing of the context, or failed and reported
it. -/
def Reported (ret : Bool) (s t : Sys) : Prop :=
  t.n = s.n ∨ (ret = true ∧ t.n = { s.n with weCalled := true })

theorem Reported.trans {ret : Bool} {s t u : Sys} (h : t.n = s.n) (h' : Reported ret t u) :
    Reported ret s u := by
  unfold Reported at h'
  rwa [h] at h'

theorem Reported.ok {s t : Sys} (h : Reported false s t) : t.n = s.n := by
  rcases h with h | ⟨h, -⟩
  · exact h
  · cases h

theorem addSkIno_reported {s t : Sys} {inode : Nat} {pid : Int} {comm : List UInt8} {ret : Bool}
    (h : addSkIno s inode pid comm = some (ret, t)) : Reported ret s t := by
  rcases addSkIno_cases h with ⟨rfl, m, as, -, -, rfl⟩ | ⟨rfl, -, rfl⟩
  · exact Or.inl rfl
  · exact Or.inr ⟨rfl, rfl⟩

theorem skInoMakeMap_reported {pid : Int} {comm : List UInt8} {ents : List (Option FdEnt)}
    {s t : Sys} {ret : Bool} (h : skInoMakeMap pid comm ents s = some (ret, t)) :
    Reported ret s t := by
  refine skInoMakeMap_rule (R := fun _ ret s t => Reported ret s t) ?_ ?_ ?_ h
  · exact fun s => Or.inl rfl
  · exact fun s t u inode os ret ht hrest => Reported.trans (addSkIno_reported ht).ok hrest
  · exact fun s t inode os ht => addSkIno_reported ht

theorem procLoop_reported {fs : ProcFs} {ents : List (Option ProcEnt)} {s t : Sys} {ret : Bool}
    (h : procLoop fs ents s = some (ret, t)) : Reported ret s t := by
  refine procLoop_rule (R := Reported) (fun _ _ => Or.inl rfl) (fun s path r t => ?_) ?_ ?_ h
  · exact Reported.trans (s := s) (t := { s with procPath := path }) rfl
  · exact fun _ _ _ s t u r hst hrest => Reported.trans (skInoMakeMap_reported hst).ok hrest
  · exact fun _ _ _ s t hst => skInoMakeMap_reported hst

/-- What `build_sk_proc_map` leaves in the context when it succeeds. -/
def builtCtx (n : NmCtx) : NmCtx :=
  if extIsSet n.extReq INET_DIAG_PROC then { n with extRcv := n.extRcv ||| bit INET_DIAG_PROC }
  else n

theorem buildSkProcMap_n {s t : Sys} {fs : ProcFs} {ret : Bool}
    (h : buildSkProcMap s fs = some (ret, t)) :
    if ret then t.n = s.n ∨ t.n = { s.n with weCalled := true } else t.n = builtCtx s.n := by
  unfold buildSkProcMap at h
  unfold builtCtx
  cases hreq : extIsSet s.n.extReq INET_DIAG_PROC with
  | false =>
      rw [hreq] at h
      cases h
      rfl
  | true =>
      rw [hreq] at h
      obtain ⟨⟨r, u⟩, hu, h⟩ := bind_some h
      have hrep := procLoop_reported hu
      cases r with
      | true =>
          cases h
          rcases hrep with hn | ⟨-, hn⟩
          · exact Or.inl hn
          · exact Or.inr hn
      | false =>
          cases h
          show { u.n with extRcv := u.n.extRcv ||| bit INET_DIAG_PROC } = _
          rw [hrep.ok]
          rfl

theorem freeSkProcMap_reported {s t : Sys} {resize ret : Bool}
    (h : freeSkProcMap s resize = some (ret, t)) : Reported ret s t := by
  unfold freeSkProcMap at h
  split at h
  · cases h
    exact Or.inl rfl
  · dsimp only at h
    obtain ⟨i, -, h⟩ := bind_some h
    obtain ⟨hb, -, h⟩ := bind_some h
    split at h
    · cases h
    · split at h
      · split at h
        · cases h
          exact Or.inr ⟨rfl, rfl⟩
        · cases h
          exact Or.inl rfl
      · cases h
        exact Or.inl rfl

/-! ## The calls of a frame -/

/-- The state in which the body calls `build_sk_proc_map`. -/
def frameStart (s : Sys) (env : BodyEnv) : Sys := { s with allocs := env.allocs }

/-- The state in which `draw_connections`, called in `s`, calls `free_sk_proc_map`: it has
clamped the position, and drawn and freed the connections. -/
def beforeFree (s : Sys) : Sys :=
  { s with n := { s.n with
    posMain := { s.n.posMain with y := clampY s.n }
    connList := []
    nrConns := i32 (s.n.nrConns - s.n.connList.length) } }

/-- The calls of `mvwprintw` for the connections, in the state `s` at the start of
`draw_connections`. -/
def rowWrites (s : Sys) (stk : ConnInfo → FieldInfo → Ptr) : Option (List Write) :=
  rowLoop { s with n := { s.n with posMain := { s.n.posMain with y := clampY s.n } } } stk
    s.n.connList 1 (clampY s.n)

theorem drawConnections_free {s t : Sys} {stk : ConnInfo → FieldInfo → Ptr} {frame : Frame}
    (h : drawConnections s stk = some (frame, t)) :
    (rowWrites s stk).isSome ∧ ∃ ret, freeSkProcMap (beforeFree s) true = some (ret, t) := by
  unfold drawConnections at h
  dsimp only at h
  obtain ⟨rows, hrows, h⟩ := bind_some h
  obtain ⟨⟨ret, u⟩, hu, h⟩ := bind_some h
  cases h
  exact ⟨Option.isSome_of_eq_some hrows, ret, hu⟩

/-- How the body can go: `Body s env t` when it may take `s` to `t`. -/
inductive Body (s : Sys) (env : BodyEnv) : Sys → Prop
  | idle : s.n.curScreen ≠ .main → Body s env { s with pc := .wait }
  | failed (u) : s.n.curScreen = .main → collect (frameStart s env) env = some (true, u) →
      Body s env { u with err := true, pc := .out }
  | drawn (u ret v) : s.n.curScreen = .main → collect (frameStart s env) env = some (false, u) →
      (rowWrites u env.stk).isSome → freeSkProcMap (beforeFree u) true = some (ret, v) →
      Body s env { v with err := false, pc := .wait }

/-- **The body** goes one of these ways. -/
theorem mainBody_body {s t : Sys} {env : BodyEnv} (h : mainBody s env = some t) :
    Body s env t := by
  unfold mainBody at h
  split at h
  · cases h
    exact .idle (by assumption)
  · rename_i hscreen
    have hscreen : s.n.curScreen = .main := by simpa using hscreen
    obtain ⟨⟨err, u⟩, hu, h⟩ := bind_some h
    cases err with
    | true =>
        cases h
        exact .failed u hscreen hu
    | false =>
        obtain ⟨⟨frame, v⟩, hv, h⟩ := bind_some h
        obtain ⟨hrows, ret, hfree⟩ := drawConnections_free hv
        cases h
        exact .drawn u ret v hscreen hu hrows hfree

theorem step_body {s t : Sys} {env : BodyEnv} (h : step s (.body env) = some t) :
    s.pc = .top ∧ Body s env t := by
  rw [step] at h
  split at h
  · exact ⟨by assumption, mainBody_body h⟩
  · cases h

/-- A collection that succeeds is a scan and a dump that do. -/
theorem collect_ok {s t : Sys} {env : BodyEnv} (h : collect s env = some (false, t)) :
    ∃ u, buildSkProcMap s env.fs = some (false, u) ∧
      connectionsDump u env.dump = some (false, t) := by
  unfold collect at h
  obtain ⟨⟨err, u⟩, hu, h⟩ := bind_some h
  cases err with
  | true => cases h
  | false => exact ⟨u, hu, h⟩

end Sockmon
