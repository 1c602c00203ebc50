import VirtualMemory.Library.LockOrder

/-!
# The mutexes of the kernel

What remains of each function when only its scoped locks are kept. Where the source
decides by data the code here leaves the choice open, and a loop may run any number of
times; a path that ends the program is a beginning of one that does not. Functions that
call themselves through other functions (the eviction of a master table's page tables, a
fault or an access on a shared page) have a depth.

Two branches can be closed: an eviction of a page table may meet resident pages or not,
and a clone may copy a mapping of a shared segment or not.
-/

namespace VirtualMemory

open LockOrder LockOrder.Code

inductive Mutex where
  | databus
  | sseg
  | pcbvec
  | uslst
  | usft
  | kslst
  | ksft
  | dvt
  deriving DecidableEq, Repr

/-- The branches that a path may take. -/
structure Branches where
  children : Bool
  connects : Bool

namespace MutexOrder

abbrev MCode := Code Mutex

/-- Code that is there on a branch only. -/
def onBranch (open_ : Bool) (a : MCode) : MCode := if open_ then a else .skip

def dvtMark : MCode := .locked .dvt .skip

def dvtAcquireCluster : MCode := .locked .dvt .skip

def ksFtUpdate : MCode := .locked .ksft .skip

def usFtUpdate : MCode := .locked .usft .skip

def ksLockPage : MCode := .locked .ksft .skip

def ksUnlockPage : MCode := .locked .ksft .skip

def ksFreePage : MCode := .locked .kslst .skip

def usFreePage : MCode := .locked .uslst .skip

def ksGetVictim : MCode := .locked .ksft .skip

def usGetVictim : MCode := .locked .usft .skip

def usSwapOut : MCode := .locked .usft (.seq dvtAcquireCluster.opt usFreePage)

def usEvictPage : MCode := usSwapOut

def pageTableEvictChildren (b : Branches) : MCode := onBranch b.children (.loop usEvictPage)

/-- `ks_swap_out`, and with it `ks_evict_page` and `master_table_evict_children`. -/
def ksSwapOut (b : Branches) : Nat → MCode
  | 0 => .locked .ksft (.seq dvtAcquireCluster.opt
      (.seq (pageTableEvictChildren b) ksFreePage))
  | depth + 1 => .locked .ksft (.seq dvtAcquireCluster.opt
      (.seq (.choice (pageTableEvictChildren b) (.loop (opt (.seq (pageTableEvictChildren b)
        (.seq dvtAcquireCluster (ksSwapOut b depth)))))) ksFreePage))

def ksAcquirePage (b : Branches) (depth : Nat) : MCode :=
  .seq (.locked .kslst (opt (.seq ksGetVictim (ksSwapOut b depth)))) ksFtUpdate

def usAcquirePage : MCode :=
  .seq (.locked .uslst (opt (.seq usGetVictim usSwapOut))) usFtUpdate

def ksRequestPage (b : Branches) (depth : Nat) : MCode :=
  .seq (ksAcquirePage b depth) dvtMark.opt

def usRequestPage : MCode := usAcquirePage

def usLoadPage : MCode := .locked .uslst (.locked .usft usAcquirePage)

def usClonePage : MCode := .locked .uslst (.locked .usft usAcquirePage)

def ksRelinquishPage : MCode := ksFreePage

def usRelinquishPage : MCode := .seq dvtMark.opt usFreePage

def relinquishCluster : MCode := dvtMark

def swapMasterTable (b : Branches) (depth : Nat) : MCode := ksRequestPage b depth

/-- The loop of `master_table_lock` and `page_table_lock`: it may lock in vain. -/
def lockLoop (swapIn : MCode) : MCode :=
  .seq (.loop (.seq ksLockPage ksUnlockPage)) (.choice ksLockPage swapIn)

def masterTableLock (b : Branches) (depth : Nat) : MCode := lockLoop (swapMasterTable b depth)

def pageTableLock (b : Branches) (depth : Nat) : MCode := lockLoop (ksRequestPage b depth)

def swapPageTable (b : Branches) (depth : Nat) : MCode := ksRequestPage b depth

/-- An operation between the locking of its master table and the unlocker. -/
def underMaster (b : Branches) (depth : Nat) (a : MCode) : MCode :=
  .seq (masterTableLock b depth) (.seq a ksUnlockPage)

/-- The pages of a new segment: their page tables are locked in turn. -/
def fillSegment (b : Branches) (depth : Nat) (work : MCode) : MCode :=
  .loop (.seq (.choice (ksRequestPage b depth) (pageTableLock b depth)) (.seq work ksUnlockPage))

/-- A call that returns early when it does not like its arguments. -/
def newSegment (b : Branches) (depth : Nat) (work : MCode) : MCode :=
  opt (underMaster b depth (opt (fillSegment b depth work)))

def createSegment (b : Branches) (depth : Nat) : MCode := newSegment b depth .skip

def loadSegment (b : Branches) (depth : Nat) : MCode := newSegment b depth usLoadPage

/-- `KernelSystem::disconnect_shared_segment` and `connect_shared_segment`. -/
def changeUsers : MCode := .locked .sseg .skip

def deleteSegmentInd (b : Branches) (depth : Nat) : MCode :=
  .loop (.seq (pageTableLock b depth)
    (.seq (.choice (.choice usRelinquishPage relinquishCluster.opt) changeUsers.opt) ksUnlockPage))

def deleteSegment (b : Branches) (depth : Nat) : MCode :=
  opt (underMaster b depth (deleteSegmentInd b depth).opt)

def createProcess (b : Branches) (depth : Nat) : MCode :=
  .seq (.locked .pcbvec .skip) (.seq (ksAcquirePage b depth) ksFtUpdate)

def processDeleted : MCode := .locked .pcbvec .skip

def deleteProcess (b : Branches) (depth : Nat) : MCode :=
  .seq (masterTableLock b depth) (.seq (.loop (deleteSegmentInd b depth))
    (.seq ksRelinquishPage (.seq ksUnlockPage processDeleted)))

/-- `clone_segment_from`, with both page tables locked for each page. -/
def cloneSegmentFrom (b : Branches) (depth : Nat) : MCode :=
  fillSegment b depth (.seq (pageTableLock b depth)
    (.seq (.choice (onBranch b.connects changeUsers.opt) (.choice usRequestPage usClonePage))
      ksUnlockPage))

def cloneProcess (b : Branches) (depth : Nat) : MCode :=
  .locked .pcbvec (.locked .uslst (.locked .usft
    (.seq (masterTableLock b depth) (.seq (ksAcquirePage b depth)
      (.seq (.loop (cloneSegmentFrom b depth)) ksFtUpdate)))))

def sharedSegmentFind : MCode := .locked .sseg .skip

/-- `KernelSystem::create_shared_segment`. -/
def createDummy (b : Branches) (depth : Nat) : MCode :=
  .locked .sseg (opt (.seq (createProcess b depth) (createSegment b depth)))

def createSharedSegment (b : Branches) (depth : Nat) : MCode :=
  opt (underMaster b depth (opt (.seq sharedSegmentFind
    (.seq (opt (.seq (createDummy b depth) sharedSegmentFind.opt))
      (opt (.seq changeUsers (fillSegment b depth .skip)))))))

def disconnectSharedSegment (b : Branches) (depth : Nat) : MCode :=
  .seq sharedSegmentFind (opt (.seq changeUsers (deleteSegmentInd b depth)))

def deleteSharedSegment (b : Branches) (depth : Nat) : MCode :=
  .seq sharedSegmentFind (opt (.locked .sseg
    (.seq (.loop (deleteSegmentInd b depth)) (deleteProcess b depth))))

/-- `page_fault`, where `levels` shared pages may lead on to their dummy process. -/
def pageFault (b : Branches) (depth : Nat) : Nat → MCode
  | 0 => underMaster b depth (.seq (.loop (swapPageTable b depth)) usRequestPage.opt)
  | levels + 1 => underMaster b depth (.seq (.loop (swapPageTable b depth))
      (.choice usRequestPage.opt (.locked .sseg (pageFault b depth levels))))

def access (b : Branches) (depth : Nat) : Nat → MCode
  | 0 => .locked .databus (underMaster b depth (opt (.locked .usft .skip)))
  | levels + 1 => .locked .databus (underMaster b depth
      (.choice (opt (.locked .usft .skip)) (access b depth levels)))

def getPa : Nat → MCode
  | 0 => .skip
  | levels + 1 => .choice .skip (.locked .sseg (getPa levels))

inductive Operation where
  | createProcess
  | deleteProcess
  | cloneProcess
  | createSegment
  | loadSegment
  | deleteSegment
  | createSharedSegment
  | disconnectSharedSegment
  | deleteSharedSegment
  | pageFault
  | access
  | getPhysicalAddress
  deriving DecidableEq, Repr

def Operation.code (b : Branches) (depth levels : Nat) : Operation → MCode
  | .createProcess => MutexOrder.createProcess b depth
  | .deleteProcess => MutexOrder.deleteProcess b depth
  | .cloneProcess => MutexOrder.cloneProcess b depth
  | .createSegment => MutexOrder.createSegment b depth
  | .loadSegment => MutexOrder.loadSegment b depth
  | .deleteSegment => MutexOrder.deleteSegment b depth
  | .createSharedSegment => MutexOrder.createSharedSegment b depth
  | .disconnectSharedSegment => MutexOrder.disconnectSharedSegment b depth
  | .deleteSharedSegment => MutexOrder.deleteSharedSegment b depth
  | .pageFault => MutexOrder.pageFault b depth levels
  | .access => MutexOrder.access b depth levels
  | .getPhysicalAddress => getPa levels

/-- What a thread that runs some operations acquires and releases. -/
inductive Program (b : Branches) : List (Event Mutex) → Prop
  | done : Program b []
  | call {op : Operation} {depth levels : Nat} {es rest : List (Event Mutex)} :
      (op.code b depth levels).Trace es → Program b rest → Program b (es ++ rest)

def rank : Mutex → Nat
  | .databus => 0
  | .sseg => 1
  | .pcbvec => 2
  | .uslst => 3
  | .usft => 4
  | .kslst => 5
  | .ksft => 6
  | .dvt => 7

/-- No eviction of a page table meets a resident page, and no clone copies a mapping of a
shared segment. -/
def quiet : Branches := ⟨false, false⟩

def Below (k : Nat) (held : List Mutex) : Prop := ∀ m ∈ held, rank m < k

/-- The user mutexes may be taken, in their order or once more. -/
def UserReady (held : List Mutex) : Prop :=
  Below 3 held ∨ (.uslst ∈ held ∧ .usft ∈ held ∧ Below 5 held)

variable {held : List Mutex} {k k' : Nat} {m : Mutex} {depth : Nat}

theorem Below.mono (h : Below k held) (hk : k ≤ k') : Below k' held :=
  fun m hm => Nat.lt_of_lt_of_le (h m hm) hk

theorem Below.cons (h : Below k held) (hm : rank m < k) : Below k (m :: held) := by
  intro x hx
  obtain rfl | hx := List.mem_cons.mp hx
  · exact hm
  · exact h x hx

theorem below_nil : Below k [] := nofun

theorem UserReady.below (h : UserReady held) : Below 5 held := by
  obtain h | ⟨_, _, h⟩ := h
  · exact h.mono (by decide)
  · exact h

theorem ordered_leaf (h : Below (rank m) held) : (Code.locked m .skip).Ordered rank held :=
  ⟨.inr h, trivial⟩

theorem ordered_again (h : m ∈ held) : (Code.locked m .skip).Ordered rank held :=
  ⟨.inl h, trivial⟩

theorem ordered_dvt (h : Below 7 held) : dvtAcquireCluster.Ordered rank held := ordered_leaf h

/-- An eviction that meets no resident page stays with the kernel's mutexes. -/
theorem ordered_ksSwapOut (hlist : Mutex.kslst ∈ held) (h : Below 7 held)
    (hmay : MayLock rank held .ksft) : (ksSwapOut quiet depth).Ordered rank held := by
  induction depth generalizing held with
  | zero =>
      exact ⟨hmay, (ordered_dvt (h.cons (by decide))).opt, trivial,
        ordered_again (List.mem_cons_of_mem _ hlist)⟩
  | succ depth ih =>
      have hinner := h.cons (m := .ksft) (by decide)
      have hchild := ih (List.mem_cons_of_mem _ hlist) hinner (.inl (List.mem_cons_self ..))
      refine ⟨hmay, (ordered_dvt hinner).opt, ⟨trivial, ?_⟩, ?_⟩
      · exact Code.Ordered.opt ⟨trivial, ordered_dvt hinner, hchild⟩
      · exact ordered_again (List.mem_cons_of_mem _ hlist)

theorem ordered_ksAcquirePage (h : Below 5 held) :
    (ksAcquirePage quiet depth).Ordered rank held := by
  have hlist : Below 6 (.kslst :: held) := (h.mono (by decide)).cons (by decide)
  refine ⟨⟨.inr h, Code.Ordered.opt ⟨ordered_leaf hlist, ?_⟩⟩, ordered_leaf (h.mono (by decide))⟩
  exact ordered_ksSwapOut (List.mem_cons_self ..) (hlist.mono (by decide)) (.inr hlist)

theorem ordered_ksRequestPage (h : Below 5 held) :
    (ksRequestPage quiet depth).Ordered rank held :=
  ⟨ordered_ksAcquirePage h, Code.Ordered.opt (ordered_leaf (h.mono (by decide)))⟩

theorem ordered_usAcquirePage (h : UserReady held) : usAcquirePage.Ordered rank held := by
  have hdvt : Below 7 (.usft :: .uslst :: held) :=
    ((h.below.mono (by decide)).cons (by decide)).cons (by decide)
  have hfree : usFreePage.Ordered rank (.usft :: .uslst :: held) := ordered_again (by simp)
  obtain h | ⟨huslst, husft, _⟩ := h
  · have husft : Below 4 (.uslst :: held) := (h.mono (by decide)).cons (by decide)
    refine ⟨⟨.inr h, Code.Ordered.opt ⟨ordered_leaf husft, .inr husft, ?_⟩⟩, ?_⟩
    · exact ⟨(ordered_dvt hdvt).opt, hfree⟩
    · exact ordered_leaf (h.mono (by decide))
  · have husft' : Mutex.usft ∈ .uslst :: held := List.mem_cons_of_mem _ husft
    refine ⟨⟨.inl huslst, Code.Ordered.opt ⟨ordered_again husft', .inl husft', ?_⟩⟩, ?_⟩
    · exact ⟨(ordered_dvt hdvt).opt, hfree⟩
    · exact ordered_again husft

/-- `us_load_page` and `us_clone_page`, which take both user mutexes first. -/
theorem ordered_usLoadPage (h : UserReady held) : usLoadPage.Ordered rank held := by
  have hready : UserReady (.usft :: .uslst :: held) :=
    .inr ⟨by simp, by simp, (h.below.cons (by decide)).cons (by decide)⟩
  obtain h | ⟨huslst, husft, _⟩ := h
  · exact ⟨.inr h, .inr ((h.mono (by decide)).cons (by decide)), ordered_usAcquirePage hready⟩
  · exact ⟨.inl huslst, .inl (List.mem_cons_of_mem _ husft), ordered_usAcquirePage hready⟩

theorem ordered_lockLoop {swapIn : MCode} (h : Below 5 held) (hswap : swapIn.Ordered rank held) :
    (lockLoop swapIn).Ordered rank held :=
  have hksft : Below 6 held := h.mono (by decide)
  ⟨⟨ordered_leaf hksft, ordered_leaf hksft⟩, ordered_leaf hksft, hswap⟩

theorem ordered_pageTableLock (h : Below 5 held) :
    (pageTableLock quiet depth).Ordered rank held := ordered_lockLoop h (ordered_ksRequestPage h)

theorem ordered_underMaster {a : MCode} (h : Below 5 held) (ha : a.Ordered rank held) :
    (underMaster quiet depth a).Ordered rank held :=
  ⟨ordered_lockLoop h (ordered_ksRequestPage h), ha, ordered_leaf (h.mono (by decide))⟩

theorem ordered_fillSegment {work : MCode} (h : Below 5 held) (hwork : work.Ordered rank held) :
    (fillSegment quiet depth work).Ordered rank held :=
  ⟨⟨ordered_ksRequestPage h, ordered_pageTableLock h⟩, hwork, ordered_leaf (h.mono (by decide))⟩

theorem ordered_newSegment {work : MCode} (h : Below 5 held) (hwork : work.Ordered rank held) :
    (newSegment quiet depth work).Ordered rank held :=
  (ordered_underMaster h (ordered_fillSegment h hwork).opt).opt

theorem ordered_deleteSegmentInd (h : Below 3 held) (hsseg : MayLock rank held .sseg) :
    (deleteSegmentInd quiet depth).Ordered rank held := by
  have hdvt : relinquishCluster.Ordered rank held := ordered_leaf (h.mono (by decide))
  refine ⟨ordered_pageTableLock (h.mono (by decide)), ⟨⟨⟨hdvt.opt, ?_⟩, hdvt.opt⟩, ?_⟩, ?_⟩
  · exact ordered_leaf h
  · exact Code.Ordered.opt ⟨hsseg, trivial⟩
  · exact ordered_leaf (h.mono (by decide))

theorem ordered_createProcess (h : Below 2 held) :
    (createProcess quiet depth).Ordered rank held :=
  ⟨ordered_leaf h, ordered_ksAcquirePage (h.mono (by decide)), ordered_leaf (h.mono (by decide))⟩

theorem ordered_deleteProcess (h : Below 2 held) (hsseg : MayLock rank held .sseg) :
    (deleteProcess quiet depth).Ordered rank held :=
  have hkernel : Below 5 held := h.mono (by decide)
  ⟨ordered_lockLoop hkernel (ordered_ksRequestPage hkernel),
    ordered_deleteSegmentInd (h.mono (by decide)) hsseg, ordered_leaf hkernel,
    ordered_leaf (h.mono (by decide)), ordered_leaf h⟩

theorem ordered_cloneProcess : (cloneProcess quiet depth).Ordered rank [] := by
  have h : Below 5 [.usft, .uslst, .pcbvec] :=
    ((Below.cons below_nil (by decide)).cons (by decide)).cons (by decide)
  have hready : UserReady [.usft, .uslst, .pcbvec] := .inr ⟨by simp, by simp, h⟩
  have hksft : Below 6 [.usft, .uslst, .pcbvec] := h.mono (by decide)
  refine ⟨.inr below_nil, .inr (Below.cons below_nil (by decide)),
    .inr ((Below.cons below_nil (by decide)).cons (by decide)),
    ordered_lockLoop h (ordered_ksRequestPage h), ordered_ksAcquirePage h, ?_, ordered_leaf hksft⟩
  refine ordered_fillSegment h ⟨ordered_pageTableLock h, ⟨trivial, ?_⟩, ordered_leaf hksft⟩
  exact ⟨ordered_usAcquirePage hready, ordered_usLoadPage hready⟩

theorem ordered_createSharedSegment : (createSharedSegment quiet depth).Ordered rank [] := by
  have hnone : Below 5 [] := below_nil
  have hsseg : Below 2 [.sseg] := Below.cons below_nil (by decide)
  have hfind : sharedSegmentFind.Ordered rank [] := ordered_leaf below_nil
  have hdummy : (createDummy quiet depth).Ordered rank [] :=
    ⟨.inr below_nil, Code.Ordered.opt ⟨ordered_createProcess hsseg,
      ordered_newSegment (hsseg.mono (by decide)) trivial⟩⟩
  refine Code.Ordered.opt (ordered_underMaster hnone (Code.Ordered.opt ⟨hfind, ?_, ?_⟩))
  · exact Code.Ordered.opt ⟨hdummy, hfind.opt⟩
  · exact Code.Ordered.opt ⟨ordered_leaf below_nil, ordered_fillSegment hnone trivial⟩

theorem ordered_deleteSharedSegment : (deleteSharedSegment quiet depth).Ordered rank [] := by
  have hsseg : Below 2 [.sseg] := Below.cons below_nil (by decide)
  have hagain : MayLock rank [.sseg] .sseg := .inl (by simp)
  refine ⟨ordered_leaf below_nil, ⟨.inr below_nil, ?_, ?_⟩, trivial⟩
  · exact ordered_deleteSegmentInd (hsseg.mono (by decide)) hagain
  · exact ordered_deleteProcess hsseg hagain

theorem ordered_pageFault {levels : Nat} (h : Below 2 held) (hsseg : MayLock rank held .sseg) :
    (pageFault quiet depth levels).Ordered rank held := by
  have hkernel : Below 5 held := h.mono (by decide)
  have huser : usRequestPage.Ordered rank held :=
    ordered_usAcquirePage (.inl (h.mono (by decide)))
  induction levels generalizing held with
  | zero => exact ordered_underMaster hkernel ⟨ordered_ksRequestPage hkernel, huser.opt⟩
  | succ levels ih =>
      have hinner : Below 2 (.sseg :: held) := h.cons (by decide)
      refine ordered_underMaster hkernel ⟨ordered_ksRequestPage hkernel, huser.opt, hsseg, ?_⟩
      exact ih hinner (.inl (List.mem_cons_self ..)) (hinner.mono (by decide))
        (ordered_usAcquirePage (.inl (hinner.mono (by decide))))

theorem ordered_access {levels : Nat} (h : Below 1 held) (hbus : MayLock rank held .databus) :
    (access quiet depth levels).Ordered rank held := by
  induction levels generalizing held with
  | zero =>
      have hinner : Below 1 (.databus :: held) := h.cons (by decide)
      refine ⟨hbus, ordered_underMaster (hinner.mono (by decide)) ?_⟩
      exact Code.Ordered.opt (ordered_leaf (hinner.mono (by decide)))
  | succ levels ih =>
      have hinner : Below 1 (.databus :: held) := h.cons (by decide)
      refine ⟨hbus, ordered_underMaster (hinner.mono (by decide)) ⟨?_, ?_⟩⟩
      · exact Code.Ordered.opt (ordered_leaf (hinner.mono (by decide)))
      · exact ih hinner (.inl (List.mem_cons_self ..))

theorem ordered_getPa {levels : Nat} (hsseg : MayLock rank held .sseg) :
    (getPa levels).Ordered rank held := by
  induction levels generalizing held with
  | zero => exact trivial
  | succ levels ih => exact ⟨trivial, hsseg, ih (.inl (List.mem_cons_self ..))⟩

/-- On the quiet paths every operation takes the mutexes in one order. -/
theorem Operation.ordered (op : Operation) (depth levels : Nat) :
    (op.code quiet depth levels).Ordered rank [] := by
  have hnone : ∀ {k}, Below k [] := below_nil
  have hsseg : MayLock rank [] .sseg := .inr below_nil
  cases op with
  | createProcess => exact ordered_createProcess hnone
  | deleteProcess => exact ordered_deleteProcess hnone hsseg
  | cloneProcess => exact ordered_cloneProcess
  | createSegment => exact ordered_newSegment hnone trivial
  | loadSegment => exact ordered_newSegment hnone (ordered_usLoadPage (.inl hnone))
  | deleteSegment =>
      exact (ordered_underMaster hnone (ordered_deleteSegmentInd hnone hsseg).opt).opt
  | createSharedSegment => exact ordered_createSharedSegment
  | disconnectSharedSegment =>
      exact ⟨ordered_leaf hnone, Code.Ordered.opt ⟨ordered_leaf hnone,
        ordered_deleteSegmentInd hnone hsseg⟩⟩
  | deleteSharedSegment => exact ordered_deleteSharedSegment
  | pageFault => exact ordered_pageFault hnone hsseg
  | access => exact ordered_access hnone (.inr below_nil)
  | getPhysicalAddress => exact ordered_getPa hsseg

theorem Program.respects {es : List (Event Mutex)} (h : Program quiet es) :
    Respects rank [] es := by
  induction h with
  | done => exact trivial
  | @call op depth levels es rest htrace _ ih => exact htrace.respects (op.ordered depth levels) ih

/-- The paths of two calls, each as its decisions lead. -/
def twoCalls (c c' : MCode) (decisions decisions' : List Nat) : Threads (Fin 2) Mutex where
  todo i := if i = 0 then (c.path decisions).1 else (c'.path decisions').1
  held _ := []

theorem twoCalls_program {b : Branches} {op op' : Operation} (depth levels : Nat)
    (decisions decisions' : List Nat) (i : Fin 2) :
    Program b ((twoCalls (op.code b depth levels) (op'.code b depth levels) decisions
      decisions').todo i) := by
  have hone : ∀ (op : Operation) (ds : List Nat),
      Program b (((op.code b depth levels).path ds).1 ++ []) :=
    fun op ds => .call (Code.trace_path _ ds) .done
  simp only [List.append_nil] at hone
  unfold twoCalls
  simp only
  split
  · exact hone op decisions
  · exact hone op' decisions'

/-- Thread 0 is about to take a mutex of thread 1, and thread 1 one of thread 0. -/
def crossed (m m' : Mutex) (s : Threads (Fin 2) Mutex) : Bool :=
  decide ((s.todo 0).head? = some (.acquire m)) && decide (m ∈ s.held 1) &&
    decide ((s.todo 1).head? = some (.acquire m')) && decide (m' ∈ s.held 0)

theorem deadlocked_of_crossed {m m' : Mutex} {s : Threads (Fin 2) Mutex}
    (h : crossed m m' s = true) : s.Deadlocked := by
  simp only [crossed, Bool.and_eq_true, decide_eq_true_eq] at h
  exact Threads.deadlocked_of_pair (by decide) h.1.1.1 h.1.1.2 h.1.2 h.2

/-- Threads that run any operations on quiet paths never wait for each other in a circle. -/
theorem mutexes_never_deadlock {ι : Type} [DecidableEq ι] {start s : Threads ι Mutex}
    {schedule : List ι} (hnone : ∀ i, start.held i = [])
    (hprogram : ∀ i, Program quiet (start.todo i)) (hrun : Run Threads.Step start schedule s) :
    ¬ s.Deadlocked :=
  Threads.no_deadlock hnone (fun i => (hprogram i).respects) hrun

/-- Two faults that both wait in `us_acquire_page` and `ks_acquire_page` for a while. -/
theorem mutexes_never_deadlock_twoFaults : ∃ s : Threads (Fin 2) Mutex,
    Run.follow Threads.advance
      (twoCalls (Operation.code quiet 0 0 .pageFault) (Operation.code quiet 0 0 .pageFault)
        [0, 0, 0, 0, 0, 0] [0, 0, 1, 0, 0]) (List.replicate 3 0 ++ List.replicate 4 1) = some s ∧
      ¬ s.Deadlocked := by
  have hruns : (Run.follow Threads.advance
      (twoCalls (Operation.code quiet 0 0 .pageFault) (Operation.code quiet 0 0 .pageFault)
        [0, 0, 0, 0, 0, 0] [0, 0, 1, 0, 0])
      (List.replicate 3 0 ++ List.replicate 4 1)).isSome = true := by
    decide +kernel
  obtain ⟨s, hs⟩ := Option.isSome_iff_exists.mp hruns
  exact ⟨s, hs, mutexes_never_deadlock (fun _ => rfl) (fun i => twoCalls_program 0 0 _ _ i)
    (Run.of_follow (fun _ _ _ => Threads.step_of_advance) hs)⟩

/-- A fault that takes a user frame by eviction holds `mutex_uslst` and waits for
`mutex_usft`; a fault whose page table takes the frame of a page table with a resident page
holds `mutex_usft` and waits for `mutex_uslst`. -/
theorem faults_deadlock : ¬ ∀ (start s : Threads (Fin 2) Mutex) (schedule : List (Fin 2)),
    (∀ i, start.held i = []) → (∀ i, Program ⟨true, true⟩ (start.todo i)) →
    Run Threads.Step start schedule s → ¬ s.Deadlocked := by
  intro hall
  have hruns : (Run.follow Threads.advance
      (twoCalls (Operation.code ⟨true, true⟩ 0 0 .pageFault)
        (Operation.code ⟨true, true⟩ 0 0 .pageFault) [0, 0, 0, 0, 0, 0]
        [0, 0, 1, 0, 0, 1, 1, 0, 1])
      (List.replicate 3 0 ++ List.replicate 9 1)).any (crossed .usft .uslst) = true := by
    decide +kernel
  obtain ⟨s, hs, hcrossed⟩ := (Option.any_eq_true _ _).mp hruns
  exact hall _ s _ (fun _ => rfl) (fun i => twoCalls_program 0 0 _ _ i)
    (Run.of_follow (fun _ _ _ => Threads.step_of_advance) hs) (deadlocked_of_crossed hcrossed)

/-- A clone that copies a mapping of a shared segment holds `mutex_pcbvec` and waits for
`mutex_sseg`; the creation of a shared segment holds them the other way round. No page is
evicted. -/
theorem clone_deadlock : ¬ ∀ (start s : Threads (Fin 2) Mutex) (schedule : List (Fin 2)),
    (∀ i, start.held i = []) → (∀ i, Program ⟨false, true⟩ (start.todo i)) →
    Run Threads.Step start schedule s → ¬ s.Deadlocked := by
  intro hall
  have hruns : (Run.follow Threads.advance
      (twoCalls (Operation.code ⟨false, true⟩ 0 0 .cloneProcess)
        (Operation.code ⟨false, true⟩ 0 0 .createSharedSegment) [0, 0, 1, 1, 1, 0, 1, 0, 0, 0, 0]
        [0, 0, 0, 0, 0, 0, 1])
      (List.replicate 17 0 ++ List.replicate 5 1)).any (crossed .sseg .pcbvec) = true := by
    decide +kernel
  obtain ⟨s, hs, hcrossed⟩ := (Option.any_eq_true _ _).mp hruns
  exact hall _ s _ (fun _ => rfl) (fun i => twoCalls_program 0 0 _ _ i)
    (Run.of_follow (fun _ _ _ => Threads.step_of_advance) hs) (deadlocked_of_crossed hcrossed)

end MutexOrder

end VirtualMemory
