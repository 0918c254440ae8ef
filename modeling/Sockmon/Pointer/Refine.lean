import Sockmon.Draw.Scrolled
import Sockmon.Pointer.Conns
import Sockmon.Pointer.Keys
import Sockmon.Pointer.Owners
import Sockmon.Run.Conns
import Sockmon.Run.Errors

set_option autoImplicit false

/-! # The program with pointers is the program with lists

`Refines p s` says that the pointers of `p` make up the list and the table of `s`, that there is
nothing else on the heaps, and that the rest of the state is the same. Each function of `Pointer`
then has a result exactly if the function of the same name has one, and the same one.
-/

namespace Sockmon

open HeapChain Transition

structure Refines (p : Pointer.State) (s : Sys) : Prop where
  sys : p.sys = s.offHeap
  conns : ∃ ps, ListAt p.conns Pointer.connList ps s.n.connList ∧
    p.conns.Holds (Pointer.connList :: ps)
  owners : OwnersAt p.owners p.hb s.owners.skInoHb

/-- Two computations that return the same besides the state. -/
def Alike {β : Type} (a : β × Pointer.State) (b : β × Sys) : Prop :=
  a.1 = b.1 ∧ Refines a.2 b.2

namespace Pointer

variable {p : State} {s : Sys}

/-- A change of what no pointer leads to. -/
theorem refines_of_eq {s' : Sys} (hr : Refines p s) (hl : s'.n.connList = s.n.connList)
    (hhb : s'.owners.skInoHb = s.owners.skInoHb) : Refines { p with sys := s'.offHeap } s' where
  sys := rfl
  conns := hl ▸ hr.conns
  owners := hhb ▸ hr.owners

/-! ## `proc.c` -/

theorem lookupSocketOwner_eq (hr : Refines p s) (inode : Nat) :
    lookupSocketOwner p inode = Sockmon.lookupSocketOwner s.owners inode := by
  obtain ⟨sys, conns, owners, hb⟩ := p
  obtain ⟨rfl, -, howners⟩ := hr
  unfold lookupSocketOwner Sockmon.lookupSocketOwner
  by_cases hz : inode = 0
  · rw [if_pos hz, if_pos hz]
  · rw [if_neg hz, if_neg hz]
    refine rel_bind_eq howners.rel fun b c ⟨ht, _⟩ => ?_
    show (skInoHash s.owners inode).bind _ = (skInoHash s.owners inode).bind _
    cases skInoHash s.owners inode with
    | none => rfl
    | some i => exact (findBucket_eq ht inode i).trans Option.map_eq_bind

theorem addSkIno_rel (hr : Refines p s) (inode : Nat) (pid : Int) (comm : List UInt8) :
    Option.Rel Alike (addSkIno p inode pid comm) (Sockmon.addSkIno s inode pid comm) := by
  unfold addSkIno Sockmon.addSkIno
  rw [lookupSocketOwner_eq hr]
  refine rel_bind_same fun found _ => ?_
  by_cases hf : found.isSome = true
  · rw [if_pos hf, if_pos hf]
    exact .some ⟨rfl, hr⟩
  · rw [if_neg hf, if_neg hf]
    obtain ⟨sys, conns, owners, hb⟩ := p
    obtain ⟨rfl, hconns, howners⟩ := hr
    dsimp only [Sys.alloc, Sys.offHeap]
    cases s.allocs.headD true with
    | false => exact .some ⟨rfl, rfl, hconns, howners⟩
    | true =>
        simp only [Bool.not_true, Bool.false_eq_true, if_false, Sockmon.OwnerMap.chain,
          Option.bind_eq_bind, Option.bind_assoc]
        refine rel_bind_same fun i _ => rel_bind howners.rel fun b c ht => ?_
        exact rel_bind (chainOwner_rel ht.1) fun r c' ht' => .some ⟨rfl, rfl, hconns, ht'⟩

theorem skInoMakeMap_rel (hr : Refines p s) (pid : Int) (comm : List UInt8)
    (ents : List (Option FdEnt)) :
    Option.Rel Alike (skInoMakeMap pid comm ents p) (Sockmon.skInoMakeMap pid comm ents s) := by
  induction ents generalizing p s with
  | nil => exact .some ⟨rfl, hr⟩
  | cons d ents ih =>
      cases d with
      | none => exact ih hr
      | some d =>
          unfold skInoMakeMap Sockmon.skInoMakeMap
          split_ifs
          · exact ih hr
          · cases d.link.bind socketInode with
            | none => exact ih hr
            | some inode =>
                refine rel_bind (addSkIno_rel hr inode pid comm) ?_
                rintro ⟨ret, p'⟩ ⟨ret', s'⟩ ⟨hret, hr'⟩
                obtain rfl : ret = ret' := hret
                cases ret with
                | true => exact .some ⟨rfl, hr'⟩
                | false => exact ih hr'

theorem procLoop_rel (hr : Refines p s) (fs : ProcFs) (ents : List (Option ProcEnt)) :
    Option.Rel Alike (procLoop fs ents p) (Sockmon.procLoop fs ents s) := by
  induction ents generalizing p s with
  | nil => exact .some ⟨rfl, hr⟩
  | cons d ents ih =>
      cases d with
      | none => exact ih hr
      | some d =>
          obtain ⟨sys, conns, owners, hb⟩ := p
          obtain ⟨rfl, hconns, howners⟩ := hr
          unfold procLoop Sockmon.procLoop
          refine rel_bind_same fun v _ => ?_
          obtain ⟨visit, path⟩ := v
          have hr' : Refines ⟨{ s.offHeap with procPath := path }, conns, owners, hb⟩
              { s with procPath := path } := ⟨rfl, hconns, howners⟩
          cases visit with
          | skip => exact ih hr'
          | fail => exact .some ⟨rfl, hr'⟩
          | links pid comm fds =>
              refine rel_bind (skInoMakeMap_rel hr' pid comm fds) ?_
              rintro ⟨ret, p'⟩ ⟨ret', s'⟩ ⟨hret, hr''⟩
              obtain rfl : ret = ret' := hret
              cases ret with
              | true => exact .some ⟨rfl, hr''⟩
              | false => exact ih hr''

theorem buildSkProcMap_rel (hr : Refines p s) (fs : ProcFs) :
    Option.Rel Alike (buildSkProcMap p fs) (Sockmon.buildSkProcMap s fs) := by
  have hreq : p.sys.n.extReq = s.n.extReq := by rw [hr.sys]; rfl
  unfold buildSkProcMap Sockmon.buildSkProcMap
  rw [hreq]
  split_ifs
  · exact .some ⟨rfl, hr⟩
  · refine rel_bind (procLoop_rel hr fs fs.listing) ?_
    rintro ⟨ret, p'⟩ ⟨ret', s'⟩ ⟨hret, hr'⟩
    obtain rfl : ret = ret' := hret
    cases ret with
    | true => exact .some ⟨rfl, hr'⟩
    | false =>
        refine .some ⟨rfl, ?_, hr'.conns, hr'.owners⟩
        rw [hr'.sys]
        rfl

/-- **`free_sk_proc_map`**, of a table of the size it is said to have. -/
theorem freeSkProcMap_rel (hr : Refines p s) (hs : s.owners.Sized) (resize : Bool) :
    Option.Rel Alike (freeSkProcMap p resize) (Sockmon.freeSkProcMap s resize) := by
  obtain ⟨sys, conns, owners, hb⟩ := p
  obtain ⟨rfl, hconns, howners⟩ := hr
  unfold freeSkProcMap Sockmon.freeSkProcMap
  have hreq : s.offHeap.n.extReq = s.n.extReq := rfl
  rw [hreq]
  split_ifs
  · exact .some ⟨rfl, rfl, hconns, howners⟩
  · refine rel_bind_same fun i _ => rel_bind howners.rel fun b c ⟨ht, hc⟩ => ?_
    obtain ⟨pss, hB, hnodup, hh⟩ := ht
    have hlen : c.length = s.owners.mapHashSz := hs.length c hc
    have hlenb : b.length = s.owners.mapHashSz := hB.length_eq.2 ▸ hlen
    -- `nr_sockets` is an `int` already: records come off one by one as they do at once
    have hnr : i32 s.owners.nrSockets = s.owners.nrSockets := by
      rw [hs.nrSockets]
      exact i32_of_range (i32_range _)
    obtain ⟨h', hfree, hh'⟩ := freeBuckets_eq hB hnodup hh hnr
    rw [hlenb] at hfree
    have hfree' : freeBuckets s.offHeap.owners.mapHashSz b owners s.offHeap.owners.nrSockets = _ :=
      hfree
    rw [hfree']
    have hclear : OwnersAt h' (some (List.replicate s.owners.mapHashSz 0))
        (some (c.map fun _ => [])) := by
      rw [List.map_const', hlen]
      exact ⟨_, bucketsAt_replicate _, by simp, by simpa using hh'⟩
    rw [if_neg (by omega)]
    have htake : c.take s.owners.mapHashSz = c := by rw [← hlen, List.take_length]
    have hdrop : c.drop s.owners.mapHashSz = [] := by rw [← hlen, List.drop_length]
    simp only [htake, hdrop, List.append_nil, Option.bind_eq_bind, Option.bind_some]
    dsimp only [Sys.alloc, Sys.offHeap]
    -- a resized table is calloc'd, one that keeps its size had its chains freed: both are empty
    by_cases hsize : (resize && s.owners.mapHashSz != 2 ^ i) = true
    · simp only [hsize, if_true]
      by_cases hok : (!s.allocs.headD true) = true
      · simp only [hok, if_true]
        exact .some ⟨rfl, rfl, hconns, hh'⟩
      · simp only [hok]
        refine .some ⟨rfl, rfl, hconns, List.replicate (2 ^ i) [], bucketsAt_replicate _, ?_, ?_⟩
        · simp
        · simpa using hh'
    · simp only [hsize]
      exact .some ⟨rfl, rfl, hconns, hclear⟩

/-! ## The dump -/

/-- A connection that is allocated and rejected. -/
theorem reject_rel {conns : Heap (Node ConnInfo)} {c : Node ConnInfo} {l : List ConnInfo}
    (hconns : ∃ ps, ListAt conns connList ps l ∧ conns.Holds (connList :: ps)) :
    ∃ h', (conns.alloc c).free conns.next = some h' ∧
      ∃ ps, ListAt h' connList ps l ∧ h'.Holds (connList :: ps) := by
  obtain ⟨ps, hl, hh⟩ := hconns
  have hne : ∀ q ∈ connList :: ps, q ≠ conns.next := by
    rintro q hq rfl
    exact hh.next_notMem hq
  refine ⟨_, Heap.free_eq Heap.alloc_cell_self, ps, hl.congr fun q hq => ?_,
    (hh.alloc c).free (Heap.free_eq Heap.alloc_cell_self) fun q => ?_⟩
  · exact (Function.update_of_ne (hne q hq) _ _).trans (Heap.alloc_cell (hne q hq))
  · constructor
    · exact fun hq => ⟨List.mem_cons_of_mem _ hq, hne q hq⟩
    · rintro ⟨hq, hqn⟩
      exact (List.mem_cons.mp hq).resolve_left hqn

/-- A connection that is allocated and filled in. -/
theorem fill_eq {conns : Heap (Node ConnInfo)} {l : List ConnInfo} {ps : List Nat} (ci : ConnInfo)
    (hl : ListAt conns connList ps l) (hh : conns.Holds (connList :: ps)) :
    ∃ h', (conns.alloc ⟨0, 0, some ConnInfo.zero⟩).modify conns.next
        (fun c => { c with entry := some ci }) = some h' ∧ ListAt h' connList ps l ∧
      h'.Holds (conns.next :: connList :: ps) ∧ conns.next ∉ connList :: ps ∧
        entryOf h' conns.next = some ci := by
  have hmod := Heap.modify_eq (h := conns.alloc ⟨0, 0, some ConnInfo.zero⟩)
    Heap.alloc_cell_self (fun c => { c with entry := some ci })
  refine ⟨_, hmod, hl.congr fun q hq => ?_, (hh.alloc _).modify hmod, hh.next_notMem, ?_⟩
  · have hne : q ≠ conns.next := by
      rintro rfl
      exact hh.next_notMem hq
    exact (Function.update_of_ne hne _ _).trans (Heap.alloc_cell hne)
  · show (Function.update (conns.alloc _).cell conns.next _ conns.next).bind Node.entry = some ci
    rw [Function.update_self]
    rfl

theorem diagDump_rel (hr : Refines p s) (d : Datagram) (nlh : Nat) :
    Option.Rel Alike (diagDump p d nlh) (Sockmon.diagDump s d nlh) := by
  have howner : ∀ inode, ownerLookup p inode = Sockmon.ownerLookup s.n.extReq s.owners inode := by
    intro inode
    unfold ownerLookup Sockmon.ownerLookup
    rw [lookupSocketOwner_eq hr, hr.sys]
    rfl
  obtain ⟨sys, conns, owners, hb⟩ := p
  obtain ⟨rfl, hconns, howners⟩ := hr
  unfold diagDump Sockmon.diagDump
  dsimp only [Sys.alloc, Sys.offHeap] at howner ⊢
  cases s.allocs.headD true with
  | false => exact .some ⟨rfl, rfl, hconns, howners⟩
  | true =>
      simp only [Bool.not_true, Bool.false_eq_true, if_false, howner]
      refine rel_bind_same fun owner _ => ?_
      generalize diagAttrs d.mem nlh owner d.reach = r
      cases r.how with
      | more => exact .none
      | unsupported type =>
          obtain ⟨h', hfree, hconns'⟩ := reject_rel (c := ⟨0, 0, some ConnInfo.zero⟩) hconns
          simp only [hfree, Option.bind_eq_bind, Option.bind_some]
          exact .some ⟨rfl, rfl, hconns', howners⟩
      | done =>
          obtain ⟨ps, hl, hh⟩ := hconns
          obtain ⟨h', hmod, hl', hh', hnew, hci⟩ := fill_eq { r.ci with ext := r.ext } hl hh
          simp only [hmod, Option.bind_eq_bind, Option.bind_some]
          refine rel_bind_same fun key _ => ?_
          refine rel_bind (addConnInfo_rel hl' hh' hnew hci) fun h'' l hconns' => ?_
          exact .some ⟨rfl, rfl, hconns', howners⟩

/-- Reporting an error. -/
theorem refines_nmError (hr : Refines p s) (msg : String) :
    Refines { p with sys := p.sys.nmError msg } (s.nmError msg) := by
  refine ⟨?_, hr.conns, hr.owners⟩
  rw [hr.sys]
  rfl

theorem nlmsgLoop_rel (hr : Refines p s) (d : Datagram) (fuel nlh : Nat) (sz : Int) :
    Option.Rel Alike (nlmsgLoop d fuel nlh sz p) (Sockmon.nlmsgLoop d fuel nlh sz s) := by
  induction fuel generalizing p s nlh sz with
  | zero => exact .none
  | succ fuel ih =>
      unfold nlmsgLoop Sockmon.nlmsgLoop
      split_ifs
      · exact .some ⟨rfl, hr⟩
      · exact .some ⟨rfl, hr⟩
      · exact .some ⟨rfl, refines_nmError hr _⟩
      · exact .some ⟨rfl, refines_nmError hr _⟩
      · refine rel_bind (diagDump_rel hr d nlh) ?_
        rintro ⟨ret, p'⟩ ⟨ret', s'⟩ ⟨hret, hr'⟩
        obtain rfl : ret = ret' := hret
        cases ret with
        | true => exact .some ⟨rfl, hr'⟩
        | false => exact ih hr' _ _

theorem recvLoop_rel (hr : Refines p s) (ds : List (Option Datagram)) :
    Option.Rel Alike (recvLoop ds p) (Sockmon.recvLoop ds s) := by
  induction ds generalizing p s with
  | nil => exact .none
  | cons d ds ih =>
      cases d with
      | none => exact .some ⟨rfl, refines_nmError hr _⟩
      | some d =>
          refine rel_bind (nlmsgLoop_rel hr d _ _ _) ?_
          rintro ⟨how, p'⟩ ⟨how', s'⟩ ⟨hhow, hr'⟩
          obtain rfl : how = how' := hhow
          cases how with
          | done => exact .some ⟨rfl, hr'⟩
          | err => exact .some ⟨rfl, hr'⟩
          | next => exact ih hr'

theorem connectionsDump_rel (hr : Refines p s) (env : DumpEnv) :
    Option.Rel Alike (connectionsDump p env) (Sockmon.connectionsDump s env) := by
  have hreq : buildRequest p.sys.n = buildRequest s.n := by
    rw [hr.sys]
    rfl
  unfold connectionsDump Sockmon.connectionsDump
  rw [hreq]
  split_ifs
  · exact .some ⟨rfl, refines_nmError hr _⟩
  · refine recvLoop_rel ?_ env.recvs
    refine ⟨?_, hr.conns, hr.owners⟩
    rw [hr.sys]
    rfl

theorem collect_rel (hr : Refines p s) (env : BodyEnv) :
    Option.Rel Alike (collect p env) (Sockmon.collect s env) := by
  refine rel_bind (buildSkProcMap_rel hr env.fs) ?_
  rintro ⟨ret, p'⟩ ⟨ret', s'⟩ ⟨hret, hr'⟩
  obtain rfl : ret = ret' := hret
  cases ret with
  | true => exact .some ⟨rfl, hr'⟩
  | false => exact connectionsDump_rel hr' env.dump

/-! ## Drawing -/

/-- Taking all connections out of the list, by a loop that counts them down. -/
theorem drain_conns {σ : Type} {visit : ConnInfo → σ → Option σ} {r : σ}
    {conns : Heap (Node ConnInfo)} {l : List ConnInfo}
    (hconns : ∃ ps, ListAt conns connList ps l ∧ conns.Holds (connList :: ps)) :
    Option.Rel (fun m r' => m.2 = r' ∧
        ∃ ps, ListAt m.1 connList ps ([] : List ConnInfo) ∧ m.1.Holds (connList :: ps))
      (listForEachEntrySafe connList (drainBody visit) (conns, r))
      (l.foldlM (fun r ci => visit ci r) r) := by
  obtain ⟨ps, hl, hh⟩ := hconns
  refine rel_mono (listForEachEntrySafe_drain hl hh) ?_
  rintro m r' ⟨hm, hd⟩
  exact ⟨hm, [], hd.list, hd.holds⟩

theorem drawConnections_rel (hr : Refines p s) (hs : s.owners.Sized) (hc : Counted s)
    (stk : ConnInfo → FieldInfo → Ptr) :
    Option.Rel Alike (drawConnections p stk) (Sockmon.drawConnections s stk) := by
  obtain ⟨sys, conns, owners, hb⟩ := p
  obtain ⟨rfl, hconns, howners⟩ := hr
  unfold drawConnections Sockmon.drawConnections
  dsimp only
  -- The state with the position clamped.
  set c : Sys := { s with n := { s.n with posMain := { s.n.posMain with y := clampY s.n } } }
    with hcdef
  have hsame : DrawsAlike c c.offHeap := ⟨rfl, rfl, rfl, rfl, rfl⟩
  have hrows : Option.Rel (fun m ws => m.2.writes = ws ∧
      m.2.nrConns = i32 (s.n.nrConns - s.n.connList.length) ∧
        ∃ ps, ListAt m.1 connList ps ([] : List ConnInfo) ∧ m.1.Holds (connList :: ps))
      (listForEachEntrySafe connList (drainBody (drawRow c.offHeap stk))
        (conns, ⟨1, clampY s.n, [], s.n.nrConns⟩))
      (rowLoop c stk s.n.connList 1 (clampY s.n)) := by
    have hnr : i32 s.n.nrConns = s.n.nrConns := by
      rw [hc.stored]
      exact i32_i32 _
    have hdraw := drawRow_rel c.offHeap stk s.n.connList ⟨1, clampY s.n, [], s.n.nrConns⟩ hnr
    rw [hsame.rowLoop] at hdraw
    refine rel_mono (rel_trans (drain_conns hconns) hdraw) ?_
    rintro m ws ⟨r, ⟨hm, hempty⟩, hw, hn⟩
    exact ⟨hm ▸ hw, hm ▸ hn, hempty⟩
  have hheader : headerLoop c.offHeap.n c.offHeap.tcpFields 0 c.offHeap.n.posMain.x false =
      headerLoop c.n c.tcpFields 0 c.n.posMain.x false := hsame.headerLoop _ _ _ _
  refine rel_bind hrows ?_
  rintro ⟨conns', r⟩ ws ⟨hw, hn, hempty⟩
  obtain ⟨y, skipY, writes, nr⟩ := r
  obtain rfl : writes = ws := hw
  obtain rfl : nr = i32 (s.n.nrConns - s.n.connList.length) := hn
  have hr' : Refines ⟨{ c.offHeap with n := { c.offHeap.n with
      nrConns := i32 (s.n.nrConns - s.n.connList.length) } }, conns', owners, hb⟩
      { c with n := { c.n with
        connList := [], nrConns := i32 (s.n.nrConns - s.n.connList.length) } } :=
    ⟨rfl, hempty, howners⟩
  refine rel_bind (freeSkProcMap_rel hr' hs true) ?_
  rintro ⟨ret, p'⟩ ⟨ret', s'⟩ ⟨-, hr''⟩
  refine .some ⟨?_, hr''⟩
  show (⟨_, headerLoop c.offHeap.n c.offHeap.tcpFields 0 c.offHeap.n.posMain.x false ++ _⟩ : Frame)
    = _
  rw [hheader]
  rfl

/-! ## The program -/

/-- What the loops rely on: the table has the size it is said to have, the connections are
counted, where the owners are not asked for the loop ends without one, and when `main` has
returned there is no table. -/
structure Sound (s : Sys) : Prop where
  owners : OwnersSound s
  conns : ConnsSound s
  off : s.pc = .out → extIsSet s.n.extReq INET_DIAG_PROC = false → s.owners.Empty
  gone : s.pc = .done → s.owners.skInoHb = none

theorem sound_start (b : Start) : Sound b.state := by
  have hpc : b.state.pc = .top := b.pc
  refine ⟨ownersSound_start b, connsSound_start b, fun hout => ?_, fun hdone => ?_⟩
  · rw [hpc] at hout
    cases hout
  · rw [hpc] at hdone
    cases hdone

/-- A frame that fails has entered nothing, if the owners are not asked for. -/
theorem off_step {t : Sys} {e : Event} (hs : Sound s) (h : Sockmon.step s e = some t)
    (hpc : t.pc = .out) (hreq : extIsSet t.n.extReq INET_DIAG_PROC = false) : t.owners.Empty := by
  cases e with
  | body env =>
      obtain ⟨htop, hbody⟩ := step_body h
      cases hbody with
      | idle => cases hpc
      | drawn => cases hpc
      | failed u hc hu =>
          -- Nothing was entered in this frame, nor before it.
          have hempty : s.owners.Empty := hs.owners.empty (Or.inl htop)
          have hreq' : extIsSet (frameStart s env).n.extReq INET_DIAG_PROC = false := by
            rw [← hreq]
            exact congrArg (fun ui : Ui => extIsSet ui.extReq INET_DIAG_PROC) (collect_ui hu).symm
          show u.owners.Empty
          rw [collect_off hreq' hu]
          exact hempty
  | input i =>
      obtain ⟨hwait, hback, -⟩ := step_input h
      have howners : t.owners = s.owners := congrArg Backstage.owners hback
      rw [howners]
      exact hs.owners.empty (Or.inr hwait)
  | exit closedir =>
      obtain ⟨-, ret, u, -, rfl⟩ := step_exit h
      cases hpc

theorem gone_step {t : Sys} {e : Event} (h : Sockmon.step s e = some t) (hpc : t.pc = .done) :
    t.owners.skInoHb = none := by
  cases e with
  | body env =>
      obtain ⟨-, hbody⟩ := step_body h
      cases hbody with
      | idle | failed | drawn => cases hpc
  | input i =>
      obtain ⟨-, -, hout⟩ := step_input h
      rw [hout] at hpc
      split at hpc <;> cases hpc
  | exit closedir =>
      obtain ⟨-, ret, u, -, rfl⟩ := step_exit h
      rfl

theorem sound_step {t : Sys} {e : Event} (hs : Sound s) (h : Sockmon.step s e = some t) :
    Sound t where
  owners := ownersSound_step hs.owners h
  conns := connsSound_step hs.conns h
  off := off_step hs h
  gone := gone_step h

theorem mainBody_rel (hr : Refines p s) (hs : Sound s) (hpc : s.pc = .top) (env : BodyEnv) :
    Option.Rel Refines (mainBody p env) (Sockmon.mainBody s env) := by
  have hscreen : p.sys.n.curScreen = s.n.curScreen := by
    rw [hr.sys]
    rfl
  unfold mainBody Sockmon.mainBody
  rw [hscreen]
  split_ifs
  · refine .some ⟨?_, hr.conns, hr.owners⟩
    rw [hr.sys]
    rfl
  · have hstart : Refines { p with sys := { p.sys with allocs := env.allocs } }
        { s with allocs := env.allocs } := by
      refine ⟨?_, hr.conns, hr.owners⟩
      rw [hr.sys]
      rfl
    obtain ⟨hpath, hsized, -⟩ := hs.owners.frame hpc env
    have hcounted : Counted (frameStart s env) := hs.conns.counted.congr rfl rfl
    refine rel_bind_of (collect_rel hstart env) ?_
    rintro ⟨ret, p'⟩ ⟨ret', s'⟩ hs' ⟨hret, hr'⟩
    obtain rfl : ret = ret' := hret
    cases ret with
    | true =>
        refine .some ⟨?_, hr'.conns, hr'.owners⟩
        rw [hr'.sys]
        rfl
    | false =>
        have hsized' : s'.owners.Sized := (collect_sound hpath hsized hs').2
        have hcounted' : Counted s' := collect_counted hcounted hs'
        refine rel_bind (drawConnections_rel hr' hsized' hcounted' env.stk) ?_
        rintro ⟨frame, p''⟩ ⟨frame', s''⟩ ⟨-, hr''⟩
        refine .some ⟨?_, hr''.conns, hr''.owners⟩
        rw [hr''.sys]
        rfl

/-- Without entries there is nothing on the heap. -/
theorem ownersAt_empty {h : Heap (Cell SkOwner)} {hb : Option (List Nat)}
    {t : Option (List (List SkOwner))} (ht : OwnersAt h hb t)
    (hempty : ∀ cs, t = some cs → ∀ c ∈ cs, c = []) : h.Holds [] := by
  cases hb with
  | none =>
      cases t with
      | none => exact ht
      | some cs => exact ht.elim
  | some hb =>
      cases t with
      | none => exact ht.elim
      | some cs =>
          obtain ⟨pss, hB, -, hh⟩ := ht
          have hnil : pss.flatten = [] := by
            refine List.flatten_eq_nil_iff.mpr fun ps hps => ?_
            obtain ⟨i, hi⟩ := List.mem_iff_getElem?.mp hps
            have hlen := hB.length_eq
            obtain ⟨hil, -⟩ := List.getElem?_eq_some_iff.mp hi
            obtain ⟨ps', xs, hps', hxs, hc⟩ :=
              hB.get (i := i) (List.getElem?_eq_getElem (by omega))
            rw [hi] at hps'
            obtain rfl := Option.some.inj hps'
            obtain rfl := hempty cs rfl xs (List.mem_of_getElem? hxs)
            exact List.eq_nil_of_length_eq_zero hc.length_eq
          rwa [hnil] at hh

/-- The exit starts with the table and the connections of the state before. -/
theorem exitStart_sound (hs : Sound s) (hpc : s.pc = .out) (closedir : Bool) :
    (exitStart s closedir).owners.Sized ∧ Counted (exitStart s closedir) ∧
      (extIsSet (exitStart s closedir).n.extReq INET_DIAG_PROC = false →
        (exitStart s closedir).owners.Empty) := by
  have hsized : s.owners.Sized := hs.owners.sized (by rw [hpc]; decide)
  unfold exitStart
  split_ifs
  · exact ⟨hsized, hs.conns.counted, hs.off hpc⟩
  · exact ⟨hsized, hs.conns.counted.congr rfl rfl, hs.off hpc⟩

/-- `proc_exit` leaves no owner on the heap. -/
theorem procExit_rel (hr : Refines p s) (hs : Sound s) (hpc : s.pc = .out) (closedir : Bool) :
    Option.Rel (fun p' s' => Refines p' s' ∧ Counted s') (procExit p closedir)
      (Sockmon.procExit s closedir) := by
  have hstart : Refines
      { p with sys := if closedir then p.sys else p.sys.nmPerror "pric: closedir" }
      (exitStart s closedir) := by
    unfold exitStart
    cases closedir with
    | true => exact hr
    | false => exact refines_nmError hr _
  obtain ⟨hsized, hcounted, hoff⟩ := exitStart_sound hs hpc closedir
  unfold procExit Sockmon.procExit
  refine rel_bind_of (freeSkProcMap_rel hstart hsized false) ?_
  rintro ⟨ret, p'⟩ ⟨ret', u⟩ hu ⟨-, hr'⟩
  have hempty : u.owners.Empty := by
    have hfree : FreeStep (exitStart s closedir) false ret' u := hsized.freeStep hu
    cases hfree with
    | off hreq => exact hoff hreq
    | kept => exact empty_cleared _
    | resized _ hresize | failed _ hresize => cases hresize
  have hnil : p'.owners.Holds [] := ownersAt_empty hr'.owners hempty.buckets
  have hcounted' : Counted u := by
    obtain ⟨hl, hn⟩ := freeSkProcMap_conns hu
    exact hcounted.congr hl hn
  refine .some ⟨⟨?_, hr'.conns, hnil⟩, hcounted'.congr rfl rfl⟩
  show p'.sys = _
  rw [hr'.sys]
  rfl

theorem nmCtxExit_rel (hr : Refines p s) (hc : Counted s) :
    ∃ p', nmCtxExit p = some p' ∧ Refines p' (Sockmon.nmCtxExit s) := by
  obtain ⟨sys, conns, owners, hb⟩ := p
  obtain ⟨rfl, hconns, howners⟩ := hr
  have hnr : i32 s.n.nrConns = s.n.nrConns := by
    rw [hc.stored]
    exact i32_i32 _
  have hdrain := @drain_conns _ (fun _ nr => some (i32 (nr - 1))) s.n.nrConns _ _ hconns
  rw [count_foldlM s.n.connList hnr] at hdrain
  obtain ⟨⟨conns', nr⟩, hloop, hnr', hempty⟩ := rel_right hdrain rfl
  obtain rfl : nr = i32 (s.n.nrConns - s.n.connList.length) := hnr'
  refine ⟨⟨(Sockmon.nmCtxExit s).offHeap, conns', owners, hb⟩, ?_, rfl, hempty, howners⟩
  show (listForEachEntrySafe connList _ (conns, s.n.nrConns)).bind _ = _
  rw [hloop]
  rfl

theorem mainExit_rel (hr : Refines p s) (hs : Sound s) (hpc : s.pc = .out) (closedir : Bool) :
    Option.Rel Refines (mainExit p closedir) (Sockmon.mainExit s closedir) := by
  refine rel_bind (procExit_rel hr hs hpc closedir) ?_
  rintro p' s' ⟨hr', hc⟩
  have hwindow : Refines { p' with sys := p'.sys.windowExit } s'.windowExit := by
    refine ⟨?_, hr'.conns, hr'.owners⟩
    rw [hr'.sys]
    rfl
  obtain ⟨p'', hp'', hr''⟩ := nmCtxExit_rel hwindow (hc.congr rfl rfl)
  rw [hp'']
  refine .some ⟨?_, hr''.conns, hr''.owners⟩
  show ({ p''.sys with pc := .done } : Sys) = _
  rw [hr''.sys]
  rfl

end Pointer

end Sockmon
