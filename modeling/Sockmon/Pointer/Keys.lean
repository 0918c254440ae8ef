import Sockmon.Pointer.Main
import Sockmon.Run.Stage

set_option autoImplicit false

/-! # Keys and the heap

No handler looks at the list of connections or at the table of owners, so `should_stop` does the
same whether they are in the state or on a heap.
-/

namespace Sockmon

/-- What no pointer leads to. -/
def Sys.offHeap (s : Sys) : Sys :=
  { s with n := { s.n with connList := [] }, owners := { s.owners with skInoHb := none } }

theorem behind_offHeap {s t : Sys} (h : t.backstage = s.backstage) :
    s.offHeap.backstage.behind t = t.offHeap := by
  obtain ⟨n, fields, owners, path, len, pc, err, allocs, stderr⟩ := s
  obtain ⟨n', fields', owners', path', len', pc', err', allocs', stderr'⟩ := t
  cases n
  cases n'
  unfold Sys.backstage at h
  cases h
  rfl

/-- **A key** does the same off the heap. -/
theorem shouldStop_offHeap (s : Sys) (i : Input) :
    shouldStop s.offHeap i = (shouldStop s i).map Sys.offHeap := by
  rw [← behind_offHeap rfl, shouldStop_behind]
  refine Option.map_congr fun t ht => behind_offHeap ?_
  exact (shouldStop_step ht).backstage

end Sockmon
