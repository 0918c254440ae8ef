import Sockmon.Program.Socket
import Sockmon.Run.Processes
import Sockmon.Run.Reply

set_option autoImplicit false

/-! # Frames do not mix on the socket

If the kernel ends each answer with the datagram that holds `NLMSG_DONE`, then nothing waits on
the socket whenever a frame begins. So the program on its socket runs like the program whose
frames are each given their own answer (`conversation_runs`), and each frame lists what the kernel
answers to the request that it reads off the wire (`conversation_lists`).
-/

namespace Sockmon

open Transition

/-! ## Datagrams as they are received -/

/-- What the walk reads of the datagram are the bytes that were sent. -/
def walkBytes (bs : List UInt8) : List Nat × WalkEnd :=
  let d := Datagram.over (bs.take recvBufSize) (fun _ => 0) (List.length_take_le recvBufSize bs)
  msgWalk d (d.sz / NLMSG_HDRLEN + 1) 0 d.sz

/-- No datagram comes behind one with `NLMSG_DONE`. -/
def Ended (answer : List (Option (List UInt8))) : Prop :=
  ∀ ds bs ds', answer = ds ++ some bs :: ds' → (walkBytes bs).2 = .done → ds' = []

/-- The kernel ends what it answers. -/
def WireEnv.Ended (env : WireEnv) : Prop :=
  ∀ req answer, env.kernel req = some answer → Sockmon.Ended answer

/-- What `recvmsg` makes of the datagrams on the socket, one stored over the other. -/
def delivered (env : WireEnv) : List (Option (List UInt8)) → Ptr → List (Option Datagram)
  | [], _ => []
  | none :: ds, buf => none :: delivered env ds buf
  | some bs :: ds, buf =>
      some (recvmsg env buf bs).1 :: delivered env ds (recvmsg env buf bs).2

section

variable {d d' : Datagram} {env : WireEnv} {buf : Ptr}

theorem nlmsgOk_congr {nlh : Nat} {sz : Int} (hmem : ∀ i < d.sz, d.mem i = d'.mem i)
    (hin : (nlh : Int) + sz ≤ d.sz) (hsz : 16 ≤ sz) :
    nlmsgLen d.mem nlh = nlmsgLen d'.mem nlh ∧ nlmsgType d.mem nlh = nlmsgType d'.mem nlh := by
  have hbyte : ∀ j < 16, d.mem (nlh + j) = d'.mem (nlh + j) := fun j hj => hmem _ (by omega)
  constructor
  · exact rdU32_congr fun j hj => hbyte j (by omega)
  · unfold nlmsgType rdU16 Ptr.add
    rw [hbyte 4 (by decide), hbyte 5 (by decide)]

/-- **The walk** reads nothing but the datagram. -/
theorem msgWalk_congr (hmem : ∀ i < d.sz, d.mem i = d'.mem i) (fuel nlh : Nat) (sz : Int)
    (hin : (nlh : Int) + sz ≤ d.sz) :
    (msgWalk d fuel nlh sz).2 = .done ↔ (msgWalk d' fuel nlh sz).2 = .done := by
  induction fuel generalizing nlh sz with
  | zero => exact Iff.rfl
  | succ fuel ih =>
      by_cases hsz : 16 ≤ sz
      · obtain ⟨hlen, htype⟩ := nlmsgOk_congr hmem hin hsz
        have hok : nlmsgOk d.mem nlh sz = nlmsgOk d'.mem nlh sz := by
          unfold nlmsgOk
          rw [hlen]
        rw [msgWalk, msgWalk, hok, htype, hlen]
        split_ifs
        · exact Iff.rfl
        · exact Iff.rfl
        · exact iff_of_false (fun h => by cases h) fun h => by cases h
        · exact ih _ _ (by push_cast; omega)
      · have hnot : ∀ mem, nlmsgOk mem nlh sz = false := by
          intro mem
          unfold nlmsgOk NLMSG_HDRLEN
          rw [decide_eq_false (by omega)]
          rfl
        rw [msgWalk, msgWalk, hnot, hnot]
        exact Iff.rfl

theorem recvmsg_mem (bs : List UInt8) : ∀ i < (recvmsg env buf bs).1.sz,
    (recvmsg env buf bs).1.mem i = (bs.take recvBufSize).getD i 0 := by
  intro i hi
  have hlen : i < (bs.take recvBufSize).length := hi
  have hbuf : i < recvBufSize := lt_of_lt_of_le hlen (List.length_take_le _ _)
  show (if i < recvBufSize then (bs.take recvBufSize).getD i (buf i) else _) = _
  rw [if_pos hbuf, List.getD_eq_getElem?_getD, List.getD_eq_getElem?_getD,
    List.getElem?_eq_getElem hlen, Option.getD_some, Option.getD_some]

/-- So it does not matter what was received before. -/
theorem recvmsg_walk (bs : List UInt8) :
    (msgWalk (recvmsg env buf bs).1 ((recvmsg env buf bs).1.sz / NLMSG_HDRLEN + 1) 0
      (recvmsg env buf bs).1.sz).2 = .done ↔ (walkBytes bs).2 = .done :=
  msgWalk_congr (recvmsg_mem bs) _ _ _ (by simp)

end

/-! ## The receive loop -/

section

variable {env : WireEnv} {buf : Ptr} {s : Sys} {w : Wired}

/-- **The loop** does what it does on the datagrams that it receives. -/
theorem recvWired_sys (ds : List (Option (List UInt8))) (buf : Ptr) (s : Sys) :
    (recvWired env ds buf s).map (fun r => (r.1, r.2.sys)) = recvLoop (delivered env ds buf) s := by
  induction ds generalizing buf s with
  | nil => rfl
  | cons bs ds ih =>
      cases bs with
      | none => rfl
      | some bs =>
          rw [delivered, recvLoop, recvWired]
          dsimp only
          generalize nlmsgLoop _ _ _ _ s = r
          cases r with
          | none => rfl
          | some r =>
              obtain ⟨how, u⟩ := r
              cases how with
              | done | err => rfl
              | next => exact ih _ u

/-- A walk that is stopped by `NLMSG_DONE` ends there. -/
theorem nlmsgLoop_done {d : Datagram} {fuel nlh : Nat} {sz : Int} {t : Sys}
    (h : nlmsgLoop d fuel nlh sz s = some (.done, t)) : (msgWalk d fuel nlh sz).2 = .done := by
  rw [nlmsgLoop_eq] at h
  obtain ⟨⟨ret, u⟩, -, h⟩ := Option.bind_eq_some_iff.mp h
  cases ret with
  | true => cases h
  | false =>
      generalize (msgWalk d fuel nlh sz).2 = how at h ⊢
      cases how with
      | done => rfl
      | error | next | recvmsg | never => cases h

/-- **It leaves** what comes behind the datagram with `NLMSG_DONE`. -/
theorem recvWired_queue {ds : List (Option (List UInt8))}
    (h : recvWired env ds buf s = some (false, w)) :
    ∃ ds' bs, ds = ds' ++ some bs :: w.queue ∧ (walkBytes bs).2 = .done := by
  induction ds generalizing buf s with
  | nil => cases h
  | cons bs ds ih =>
      cases bs with
      | none => cases h
      | some bs =>
          rw [recvWired] at h
          obtain ⟨⟨how, u⟩, hu, h⟩ := bind_some h
          cases how with
          | done =>
              cases h
              exact ⟨[], bs, rfl, (recvmsg_walk bs).mp (nlmsgLoop_done hu)⟩
          | err => cases h
          | next =>
              obtain ⟨ds', bs', hds, hdone⟩ := ih h
              exact ⟨some bs :: ds', bs', by rw [hds, List.cons_append], hdone⟩

end

/-! ## A frame and its own answer -/

/-- What a frame meets that begins in `w`: of the datagrams only those of its own answer. -/
def Wired.bodyEnv (w : Wired) (env : WireEnv) : BodyEnv where
  allocs := env.allocs
  fs := env.fs
  dump :=
    { sendmsg := fun r => (env.kernel r.bytes).isSome
      recvs := delivered env ((env.kernel (buildRequest w.sys.n).bytes).getD [])
        ((buildRequest w.sys.n).store w.buf) }
  stk := env.stk

def Wired.event (w : Wired) : WireEvent → Event
  | .body env => .body (w.bodyEnv env)
  | .input i => .input i
  | .exit closedir => .exit closedir

/-- The run `es` from `w` on, with the answers given to their frames. -/
def Wired.events : List WireEvent → Wired → List Event
  | [], _ => []
  | e :: es, w =>
      w.event e :: match wiredStep w e with
        | none => []
        | some w' => Wired.events es w'

/-- Nothing waits on the socket while the program is in its loop. -/
def NothingQueued (w : Wired) : Prop := w.sys.pc = .top ∨ w.sys.pc = .wait → w.queue = []

section

variable {w w' : Wired} {env : WireEnv}

/-- The scan does not change what is asked for. -/
theorem buildRequest_scanned {s u : Sys} {fs : ProcFs}
    (hu : buildSkProcMap s fs = some (false, u)) : buildRequest u.n = buildRequest s.n := by
  have hn : u.n = builtCtx s.n := buildSkProcMap_n hu
  rw [hn]
  unfold builtCtx
  split_ifs
  · rfl
  · rfl

theorem dumpWired_sys {u : Sys} (hqueue : w.queue = [])
    (hreq : buildRequest u.n = buildRequest w.sys.n) :
    (dumpWired { w with sys := u } env).map (fun r => (r.1, r.2.sys)) =
      connectionsDump u (w.bodyEnv env).dump := by
  unfold dumpWired connectionsDump
  dsimp only
  rw [hreq, (buildRequest w.sys.n).sent_eq rfl, hqueue]
  have hsend : (w.bodyEnv env).dump.sendmsg (buildRequest w.sys.n) =
      (env.kernel (buildRequest w.sys.n).bytes).isSome := rfl
  have hrecvs : (w.bodyEnv env).dump.recvs = delivered env
      ((env.kernel (buildRequest w.sys.n).bytes).getD []) ((buildRequest w.sys.n).store w.buf) :=
    rfl
  rw [hsend, hrecvs]
  generalize env.kernel (buildRequest w.sys.n).bytes = answer
  cases answer with
  | none => rfl
  | some ds => exact recvWired_sys ds _ _

theorem collectWired_sys (hqueue : w.queue = []) :
    (collectWired w env).map (fun r => (r.1, r.2.sys)) =
      collect (frameStart w.sys (w.bodyEnv env)) (w.bodyEnv env) := by
  have hscan : buildSkProcMap (frameStart w.sys (w.bodyEnv env)) (w.bodyEnv env).fs =
    buildSkProcMap { w.sys with allocs := env.allocs } env.fs := rfl
  unfold collectWired collect
  rw [hscan]
  cases hu : buildSkProcMap { w.sys with allocs := env.allocs } env.fs with
  | none => rfl
  | some r =>
      obtain ⟨err, u⟩ := r
      cases err with
      | true => rfl
      | false =>
          have hreq : buildRequest u.n = buildRequest w.sys.n :=
            buildRequest_scanned (s := { w.sys with allocs := env.allocs }) hu
          exact dumpWired_sys hqueue hreq

/-- **A frame** that finds the socket empty. -/
theorem bodyWired_sys (hqueue : w.queue = []) :
    (bodyWired w env).map (·.sys) = mainBody w.sys (w.bodyEnv env) := by
  unfold bodyWired mainBody
  by_cases hmain : w.sys.n.curScreen = .main
  · have hcollect : collect { w.sys with allocs := (w.bodyEnv env).allocs } (w.bodyEnv env) =
        (collectWired w env).map fun r => (r.1, r.2.sys) := (collectWired_sys hqueue).symm
    rw [if_neg (not_not.mpr hmain), if_neg (not_not.mpr hmain), hcollect]
    cases collectWired w env with
    | none => rfl
    | some r =>
        obtain ⟨err, v⟩ := r
        cases err with
        | true => rfl
        | false =>
            have hstk : (w.bodyEnv env).stk = env.stk := rfl
            simp only [Option.bind_eq_bind, Option.bind_some, Option.map_some, Bool.false_eq_true,
              if_false]
            rw [hstk]
            cases drawConnections v.sys env.stk with
            | none => rfl
            | some r => rfl
  · rw [if_pos hmain, if_pos hmain]
    rfl

/-- **A step** from an empty socket is the step with its own answer. -/
theorem wiredStep_sys (hw : NothingQueued w) (e : WireEvent) :
    (wiredStep w e).map (·.sys) = step w.sys (w.event e) := by
  cases e with
  | body env =>
      unfold wiredStep step Wired.event
      dsimp only
      by_cases hpc : w.sys.pc = .top
      · rw [if_pos hpc, if_pos hpc]
        exact bodyWired_sys (hw (Or.inl hpc))
      · rw [if_neg hpc, if_neg hpc]
        rfl
  | input i =>
      show ((step w.sys (.input i)).bind _).map _ = step w.sys (.input i)
      cases step w.sys (.input i) with
      | none => rfl
      | some s => rfl
  | exit closedir =>
      show ((step w.sys (.exit closedir)).bind _).map _ = step w.sys (.exit closedir)
      cases step w.sys (.exit closedir) with
      | none => rfl
      | some s => rfl

/-- **A dump** leaves nothing of its answer. -/
theorem dumpWired_queue (hqueue : w.queue = []) (hended : ∀ answer,
    env.kernel (buildRequest w.sys.n).bytes = some answer → Ended answer)
    (h : dumpWired w env = some (false, w')) : w'.queue = [] := by
  unfold dumpWired at h
  dsimp only at h
  rw [(buildRequest w.sys.n).sent_eq rfl] at h
  cases hkernel : env.kernel (buildRequest w.sys.n).bytes with
  | none =>
      rw [hkernel] at h
      cases h
  | some answer =>
      rw [hkernel] at h
      obtain ⟨ds, bs, hds, hdone⟩ := recvWired_queue h
      -- All of the answer is new, since the socket was empty.
      rw [hqueue, List.nil_append] at hds
      exact hended answer hkernel ds bs w'.queue hds hdone

theorem collectWired_queue (hqueue : w.queue = []) (hended : ∀ answer,
    env.kernel (buildRequest w.sys.n).bytes = some answer → Ended answer)
    (h : collectWired w env = some (false, w')) : w'.queue = [] := by
  obtain ⟨⟨err, u⟩, hu, h⟩ := bind_some h
  cases err with
  | true => cases h
  | false =>
      have hreq : buildRequest u.n = buildRequest w.sys.n :=
        buildRequest_scanned (s := { w.sys with allocs := env.allocs }) hu
      have hnone : { w with sys := u }.queue = [] := hqueue
      rw [← hreq] at hended
      exact dumpWired_queue hnone hended h

/-- A frame that leads back into the loop leaves nothing either. -/
theorem bodyWired_nothingQueued (hqueue : w.queue = []) (hended : env.Ended)
    (h : bodyWired w env = some w') : NothingQueued w' := by
  unfold bodyWired at h
  split at h
  · cases h
    exact fun _ => hqueue
  · obtain ⟨⟨err, v⟩, hv, h⟩ := bind_some h
    cases err with
    | true =>
        cases h
        intro hpc
        rcases hpc with hpc | hpc
        · cases hpc
        · cases hpc
    | false =>
        obtain ⟨⟨ret, s⟩, -, h⟩ := bind_some h
        cases h
        intro _
        have hempty : v.queue = [] := collectWired_queue hqueue (hended _) hv
        exact hempty

/-- **Every step** keeps the socket empty in the loop. -/
theorem wiredStep_nothingQueued {e : WireEvent} (hended : ∀ env, e = .body env → env.Ended)
    (hw : NothingQueued w) (h : wiredStep w e = some w') : NothingQueued w' := by
  cases e with
  | body env =>
      unfold wiredStep at h
      dsimp only at h
      split at h
      · rename_i hpc
        exact bodyWired_nothingQueued (hw (Or.inl hpc)) (hended env rfl) h
      · cases h
  | input i =>
      obtain ⟨s, hs, h⟩ := bind_some h
      cases h
      exact fun _ => hw (Or.inr (step_input hs).1)
  | exit closedir =>
      obtain ⟨s, hs, h⟩ := bind_some h
      cases h
      intro hpc
      obtain ⟨-, ret, u, -, rfl⟩ := step_exit hs
      rcases hpc with hpc | hpc
      · cases hpc
      · cases hpc

end

/-! ## What the kernel sends -/

/-- The datagrams `ds` are the messages `ms`, packed, with `NLMSG_DONE` behind them. -/
inductive Encodes : List (Option (List UInt8)) → List Framed → Prop
  | done (ms : List Framed) (fin : Done) (rest : List UInt8) :
      (packed ms ++ fin.bytes).length ≤ recvBufSize →
      Encodes [some (packed ms ++ fin.bytes ++ rest)] ms
  | more (ds : List (Option (List UInt8))) (ms ms' : List Framed) :
      (packed ms).length ≤ recvBufSize → Encodes ds ms' →
      Encodes (some (packed ms) :: ds) (ms ++ ms')

section

variable {env : WireEnv} {buf : Ptr} {ds : List (Option (List UInt8))} {ms : List Framed}

theorem recvmsg_sz {bs bs' : List UInt8} (h : bs.length ≤ recvBufSize) :
    bs.length ≤ (recvmsg env buf (bs ++ bs')).1.sz := by
  show bs.length ≤ ((bs ++ bs').take recvBufSize).length
  rw [List.length_take, List.length_append]
  omega

theorem bytesAt_recvmsg {bs bs' : List UInt8} (h : bs.length ≤ recvBufSize) :
    BytesAt (recvmsg env buf (bs ++ bs')).1.mem 0 bs := by
  intro i b hb
  obtain ⟨hi, -⟩ := List.getElem?_eq_some_iff.mp hb
  have hsz : bs.length ≤ (recvmsg env buf (bs ++ bs')).1.sz := recvmsg_sz h
  rw [Nat.zero_add, recvmsg_mem _ i (by omega), List.getD_eq_getElem?_getD, List.getElem?_take,
    if_pos (by omega), List.getElem?_append_left hi, hb, Option.getD_some]

theorem Encodes.carries (h : Encodes ds ms) (buf : Ptr) : Carries (delivered env ds buf) ms := by
  induction h generalizing buf with
  | done ms fin rest hlen =>
      exact .done _ _ ms fin (bytesAt_recvmsg hlen) (recvmsg_sz hlen)
  | more ds ms ms' hlen _ ih =>
      have hbytes : BytesAt (recvmsg env buf (packed ms ++ [])).1.mem 0 (packed ms) :=
        bytesAt_recvmsg hlen
      rw [List.append_nil] at hbytes
      refine .more _ _ ms ms' hbytes ?_ (ih _)
      show ((packed ms).take recvBufSize).length = _
      rw [List.take_of_length_le hlen]

/-- Messages alone do not end an answer. -/
theorem walkBytes_packed (hlen : (packed ms).length ≤ recvBufSize) :
    (walkBytes (packed ms)).2 = .next := by
  have htake : (packed ms).take recvBufSize = packed ms := List.take_of_length_le hlen
  let d := Datagram.over ((packed ms).take recvBufSize) (fun _ => 0) (List.length_take_le _ _)
  have hbytes : BytesAt d.mem 0 ((packed ms).take recvBufSize) := bytesAt_over _
  rw [htake] at hbytes
  have hsz : d.sz = (packed ms).length := congrArg List.length htake
  have hwalk : walkBytes (packed ms) = (offsets 0 ms, .next) := msgWalk_filled hbytes hsz
  rw [hwalk]

theorem Encodes.ended (h : Encodes ds ms) : Ended ds := by
  induction h with
  | done ms fin rest _ =>
      intro ds bs ds' hds _
      cases ds with
      | nil => exact (List.cons.inj hds).2.symm
      | cons d ds =>
          have hnil := (List.cons.inj hds).2
          cases ds with
          | nil => cases hnil
          | cons => cases hnil
  | more ds₀ ms ms' hlen _ ih =>
      intro ds bs ds' hds hdone
      cases ds with
      | nil =>
          have hbs : packed ms = bs := Option.some.inj (List.cons.inj hds).1
          rw [← hbs, walkBytes_packed hlen] at hdone
          cases hdone
      | cons d ds => exact ih ds bs ds' (List.cons.inj hds).2 hdone

end

/-- The messages in a datagram each, and `NLMSG_DONE` in another one. -/
def answer (ms : List Framed) (fin : Done) : List (Option (List UInt8)) :=
  ms.map (fun m => some m.bytes) ++ [some fin.bytes]

/-- Every list of messages can be sent. -/
theorem encodes_answer (ms : List Framed) (fin : Done) : Encodes (answer ms fin) ms := by
  induction ms with
  | nil =>
      have hfin : fin.bytes.length ≤ recvBufSize := by
        rw [fin.bytes_length]
        exact fin.payload_length
      have hdone := Encodes.done [] fin [] hfin
      rwa [List.append_nil] at hdone
  | cons m ms ih =>
      have hpacked : packed [m] = m.bytes := List.append_nil _
      have hfits : (packed [m]).length ≤ recvBufSize := by
        rw [hpacked, m.bytes_length]
        exact m.msg.fits
      have hmore := Encodes.more _ [m] ms hfits ih
      rwa [hpacked] at hmore

/-! ## Runs -/

theorem nothingQueued_always {b : Start} {es : List WireEvent}
    (hended : ∀ env, WireEvent.body env ∈ es → env.Ended) :
    Always wiredStep NothingQueued es b.wired := by
  refine always_of_events (fun e he w w' hw h => ?_) fun _ => rfl
  refine wiredStep_nothingQueued (fun env henv => hended env ?_) hw h
  rw [← henv]
  exact he

/-- A run whose steps find the socket empty. -/
theorem events_exec {es : List WireEvent} {w : Wired} (hw : Always wiredStep NothingQueued es w) :
    (exec wiredStep es w).map (·.sys) = exec step (Wired.events es w) w.sys := by
  induction es generalizing w with
  | nil => rfl
  | cons e es ih =>
      have hstep := wiredStep_sys (always_head hw) e
      unfold Wired.events exec
      rw [← hstep]
      cases hw' : wiredStep w e with
      | none => rfl
      | some w' => exact ih (hw.2 w' hw')

/-- **The program on its socket** runs like the program whose frames are given their own answers,
and whenever it is in its loop, nothing waits on the socket. -/
theorem conversation_runs (b : Start) (es : List WireEvent)
    (hended : ∀ env, WireEvent.body env ∈ es → env.Ended) :
    (exec wiredStep es b.wired).map (·.sys) = exec step (Wired.events es b.wired) b.state ∧
      Always wiredStep NothingQueued es b.wired :=
  ⟨events_exec (nothingQueued_always hended), nothingQueued_always hended⟩

/-- A connection with the inode 4711 and a type of service. -/
def Framed.ssh : Framed where
  msg :=
    { r := 2 :: List.replicate 67 0 ++ le32 4711
      attrs := [
        { type := INET_DIAG_TOS
          payload := [16]
          pad := [0, 0, 0]
          type_lt := by decide
          len_lt := by decide
          pad_length := by decide }]
      r_length := rfl
      fits := by decide }
  unread := List.replicate 10 0
  unread_length := rfl

def Done.bare : Done := ⟨List.replicate 10 0, [], rfl, by decide⟩

/-- A process has a socket, and the kernel answers with the connection of it. -/
def WireEnv.ssh : WireEnv where
  allocs := []
  fs := procOf MountPath.proc.base [Process.sshd]
  stk := fun _ _ _ => 0
  kernel := fun _ => some (answer [Framed.ssh] Done.bare)
  behind := fun _ => 0
  mapped := 0

theorem wireEnv_ssh_ended : WireEnv.ssh.Ended := by
  intro req answer hanswer
  cases hanswer
  exact (encodes_answer [Framed.ssh] Done.bare).ended

/-- The keys that show the process column, each behind such a frame. -/
def WireEvent.showPid : List WireEvent :=
  ([key 'f', KEY_NPAGE, KEY_DOWN, KEY_DOWN, KEY_DOWN, KEY_DOWN, key ' ', key 'q'] :
    List Key).flatMap fun ch => [.body .ssh, .input ⟨ch, [], [], Start.quiet.size⟩]

theorem wireEvent_showPid_ended {env : WireEnv} (h : WireEvent.body env ∈ WireEvent.showPid) :
    env.Ended := by
  obtain ⟨ch, -, h⟩ := List.mem_flatMap.mp h
  rcases List.mem_cons.mp h with h | h
  · cases h
    exact wireEnv_ssh_ended
  · cases List.mem_singleton.mp h

theorem conversation_runs_frames :
    (exec wiredStep WireEvent.showPid Start.quiet.wired).map (·.sys) =
        exec step (Wired.events WireEvent.showPid Start.quiet.wired) Start.quiet.state ∧
      Always wiredStep NothingQueued WireEvent.showPid Start.quiet.wired :=
  conversation_runs Start.quiet WireEvent.showPid fun _ h => wireEvent_showPid_ended h

/-! ## What is listed -/

/-- The frame that begins in `w` lists what there is: if `/proc` at `pre` shows the processes `ps`,
the kernel `k` answers the request that it reads with the messages `ms`, whose payloads have all
that is copied of them, and there is memory, then the list has for each message, once, a connection
that says what the message says, and which process has the socket. All of the answer is taken. -/
def Wired.Lists (w : Wired) (pre : List UInt8) : Prop :=
  ∀ (env : WireEnv) (k : Request → List (Option (List UInt8))) ps ms,
    (∀ a ∈ env.allocs, a = true) →
    Shows env.fs pre env.fs.listing ps →
    (∀ req, env.kernel req = some (k (readRequest (memOf req 0)))) →
    Encodes (k (buildRequest w.sys.n)) ms →
    (∀ m ∈ ms, Covered m.msg) →
      ∃ w' conns, collectWired w env = some (false, w') ∧ w'.queue = [] ∧
        w'.sys.n.nrConns = i32 ms.length ∧ Ordered w.sys conns w'.sys.n.connList ∧
        List.Forall₂ (fun m ci =>
          Decoded m.msg (shownOwner (wantsOwners w.sys) ps m.msg.inode) ci) ms conns

section

variable {w : Wired} {env : WireEnv} {u : Sys} {k : Request → List (Option (List UInt8))}
  {ps : List Process}

/-- The kernel reads the request that was built. -/
theorem kernel_reads (hs : SettingsSound w.sys)
    (hkernel : ∀ req, env.kernel req = some (k (readRequest (memOf req 0)))) :
    env.kernel (buildRequest w.sys.n).bytes = some (k (buildRequest w.sys.n)) := by
  have hfamily : w.sys.n.family < 256 := by
    rcases hs.family with h | h
    · rw [h]
      decide
    · rw [h]
      decide
  have hprotocol : w.sys.n.protocol < 256 := by
    rcases hs.protocol with h | h
    · rw [h]
      decide
    · rw [h]
      decide
  rw [hkernel, readRequest_bytes (buildRequest_fits hfamily hprotocol) (bytesAt_memOf _ 0)]

/-- The scan of the frame succeeds, and leaves the memory that there is. -/
theorem scan_shows (hs : OwnersSound w.sys) (hr : OwnersReady w.sys) (hpc : w.sys.pc = .top)
    (hlen : (procPrefix w.sys).length ≤ 240) (ha : ∀ a ∈ env.allocs, a = true)
    (h : Shows env.fs (procPrefix w.sys) env.fs.listing ps) :
    ∃ u, buildSkProcMap (frameStart w.sys (w.bodyEnv env)) env.fs = some (false, u) ∧
      AllocsOk u := by
  obtain ⟨hpath, hsized, -⟩ := hs.frame hpc (w.bodyEnv env)
  cases hw : wantsOwners w.sys with
  | false =>
      have hoff : extIsSet (frameStart w.sys (w.bodyEnv env)).n.extReq INET_DIAG_PROC = false := hw
      refine ⟨frameStart w.sys (w.bodyEnv env), ?_, ha⟩
      unfold buildSkProcMap
      rw [hoff]
      rfl
  | true =>
      obtain ⟨htable, hshift⟩ := hr hw
      obtain ⟨u, hu⟩ := buildSkProcMap_isSome hpath hsized (fun _ _ => ⟨htable, hshift⟩) ha
        (h.scanOk hlen)
      refine ⟨u, hu, ?_⟩
      rcases buildSkProcMap_added (s := frameStart w.sys (w.bodyEnv env)) ha hu with
        ⟨-, rfl⟩ | ⟨-, hmem, -⟩
      · exact ha
      · exact hmem

/-- **One frame** that finds the socket empty, with a valid sort key and a table for the owners
that are asked for, lists what there is. -/
theorem lists_frame (hnone : NothingQueued w) (hs : FramesSound w.sys) (hpc : w.sys.pc = .top)
    (hr : OwnersReady w.sys) (hsort : SortKeyValid w.sys)
    (hlen : (procPrefix w.sys).length ≤ 240) : w.Lists (procPrefix w.sys) := by
  intro env k ps ms ha hshows hkernel hms hcov
  obtain ⟨u, hu, hmem⟩ := scan_shows hs.owners hr hpc hlen ha hshows
  have hreq : buildRequest u.n = buildRequest w.sys.n :=
    buildRequest_scanned (s := frameStart w.sys (w.bodyEnv env)) hu
  have hanswer := kernel_reads hs.settings hkernel
  have hsend : (w.bodyEnv env).dump.sendmsg (buildRequest u.n) = true := by
    show (env.kernel (buildRequest u.n).bytes).isSome = true
    rw [hreq, hanswer]
    rfl
  have hcarries : Carries (w.bodyEnv env).dump.recvs ms := by
    show Carries (delivered env ((env.kernel (buildRequest w.sys.n).bytes).getD []) _) ms
    rw [hanswer]
    exact hms.carries _
  obtain ⟨t, ht⟩ := answer_dumped hs.owners hr hsort hpc hu
    (fun a hmem' => hmem a (List.mem_of_mem_take hmem')) hsend hcarries
  obtain ⟨⟨conns, hordered, hconns⟩, hnr⟩ :=
    answer_lists hs.owners hs.conns hs.infos hpc hu hcarries hcov ht
  have hcollect : collect (frameStart w.sys (w.bodyEnv env)) (w.bodyEnv env) = some (false, t) := by
    unfold collect
    rw [show (w.bodyEnv env).fs = env.fs from rfl, hu]
    exact ht
  have hqueue : w.queue = [] := hnone (Or.inl hpc)
  rw [← collectWired_sys hqueue] at hcollect
  obtain ⟨⟨ret, w'⟩, hw', he⟩ := Option.map_eq_some_iff.mp hcollect
  cases he
  refine ⟨w', conns, hw', collectWired_queue hqueue (fun answer hk => ?_) hw', hnr, hordered, ?_⟩
  · rw [hanswer] at hk
    rw [← Option.some.inj hk]
    exact hms.ended
  · have howner : ∀ inode, (snapshot w.sys (w.bodyEnv env)).owner inode =
        shownOwner (wantsOwners w.sys) ps inode :=
      snapshot_owner_shows hs.owners.path hlen hshows
    refine hconns.imp fun m ci hdecoded => ?_
    rwa [howner] at hdecoded

end

/-- **In every frame of every run** on the socket, what the kernel answers to the request that it
reads off the wire is listed, message by message, with the processes that `/proc` shows. For this
the kernel ends its answers, the mount point leaves room for the paths, the sort key is valid, and
there is a table of at least two buckets if owners are asked for. -/
theorem conversation_lists (b : Start) {m : MountPath} (hm : b.env.Mounts m)
    (hlen : m.base.length ≤ 240) (es : List WireEvent)
    (hended : ∀ env, WireEvent.body env ∈ es → env.Ended) :
    Always wiredStep (fun w => w.sys.pc = .top → OwnersReady w.sys → SortKeyValid w.sys →
      w.Lists m.base) es b.wired := by
  have hkept : m.kept = m.base := MountPath.kept_eq (Or.inr (by omega))
  have hinv : Always wiredStep (fun w => NothingQueued w ∧ FramesSound w.sys ∧
      procPrefix w.sys = m.base) es b.wired := by
    refine always_of_events (fun e he w w' hw h => ?_)
      ⟨fun _ => rfl, framesSound_start b, (procPrefix_start b hm).trans hkept⟩
    obtain ⟨hnone, hs, hpre⟩ := hw
    have hstep : step w.sys (w.event e) = some w'.sys := by
      rw [← wiredStep_sys hnone, h]
      rfl
    refine ⟨wiredStep_nothingQueued (fun env henv => hended env ?_) hnone h,
      framesSound_step hs hstep, (procPrefix_step hs.owners hstep).trans hpre⟩
    rw [← henv]
    exact he
  refine always_mono (fun w hw hpc hr hsort => ?_) hinv
  obtain ⟨hnone, hs, hpre⟩ := hw
  rw [← hpre] at hlen ⊢
  exact lists_frame hnone hs hpc hr hsort hlen

theorem ssh_covered : Covered Framed.ssh.msg := by
  have hlast : ∀ type payload, Framed.ssh.msg.last type = some payload →
      type = INET_DIAG_TOS ∧ payload = [16] := by
    intro type payload h
    obtain ⟨a, ha, rfl⟩ := Option.map_eq_some_iff.mp h
    obtain rfl := List.mem_singleton.mp (List.mem_reverse.mp (List.mem_of_find?_eq_some ha))
    have htype : INET_DIAG_TOS = type := by simpa using List.find?_some ha
    exact ⟨htype.symm, rfl⟩
  constructor
  · intro type payload h
    obtain ⟨rfl, rfl⟩ := hlast type payload h
    unfold Covers
    decide
  · intro t ht t' _ p p' hp _
    obtain ⟨rfl, -⟩ := hlast t p hp
    exact absurd ht (by decide)

/-- With the process column shown the list has the connection, with its process. -/
theorem conversation_lists_frames :
    ∃ w w' ci, exec wiredStep WireEvent.showPid Start.quiet.wired = some w ∧
      collectWired w .ssh = some (false, w') ∧ w'.sys.n.connList = [ci] ∧
      Decoded Framed.ssh.msg (some (Process.sshd.owner 4711)) ci := by
  have hrun : (exec wiredStep WireEvent.showPid Start.quiet.wired).map (fun w =>
      (w.sys.pc, wantsOwners w.sys, w.sys.owners.skInoHb.isSome, w.sys.owners.mapHashShift,
        w.sys.n.sortKey)) = some (.top, true, true, 10, none) := by decide +kernel
  obtain ⟨w, hw, hobs⟩ := Option.map_eq_some_iff.mp hrun
  simp only [Prod.mk.injEq] at hobs
  obtain ⟨hpc, hwants, htable, hshift, hkey⟩ := hobs
  have hlists := always_iff_reached.mp
    (conversation_lists Start.quiet (m := MountPath.proc) rfl (by decide +kernel)
      WireEvent.showPid fun _ h => wireEvent_showPid_ended h)
    WireEvent.showPid w List.prefix_rfl hw hpc (fun _ => ⟨htable, by rw [hshift]; decide⟩)
    (fun k hk => by rw [hkey] at hk; cases hk)
  have hcovered : ∀ m ∈ [Framed.ssh], Covered m.msg := by
    intro m hm
    rw [List.mem_singleton.mp hm]
    exact ssh_covered
  obtain ⟨w', conns, hw', -, -, hordered, hconns⟩ :=
    hlists .ssh (fun _ => answer [Framed.ssh] Done.bare) [Process.sshd] [Framed.ssh]
      (fun a ha => by cases ha) (shows_procOf (List.nodup_singleton _)) (fun _ => rfl)
      (encodes_answer [Framed.ssh] Done.bare) hcovered
  cases hconns with
  | cons hdecoded hnil =>
      cases hnil
      have howner : shownOwner (wantsOwners w.sys) [Process.sshd] Framed.ssh.msg.inode =
          some (Process.sshd.owner 4711) := by
        rw [hwants]
        rfl
      rw [howner] at hdecoded
      exact ⟨w, w', _, hw, hw', List.perm_singleton.mp hordered.perm, hdecoded⟩

end Sockmon
