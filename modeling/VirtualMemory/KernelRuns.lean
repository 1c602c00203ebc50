import VirtualMemory.Processes
import VirtualMemory.Library.Run

/-!
# Runs of public operations

A public call is made with whatever arguments its caller likes; the process it is made on is
named by its handle. `levels` is how many processes a fault or an access goes through, the
dummies of shared segments included. What a call returns besides the new state is not
recorded: a call that ends with TRAP or PAGE_FAULT is a step like any other, and only
`HALT`, a crash or a loop without end ends the run.
-/

namespace VirtualMemory

open KernelSystem

/-- The random engine will produce other values. -/
def KernelSystem.rolled (s : KernelSystem) (dice : List Nat) : KernelSystem :=
  s.withUser { s.toUserSpace with dice := dice }

inductive KernelOp where
  | createProcess
  | cloneProcess (pid : Nat)
  | deleteProcess (h : Nat)
  | createSegment (h startAddr size : Nat) (accType : AccessType)
  | loadSegment (h startAddr size : Nat) (accType : AccessType) (content : Nat → Page)
  | createSharedSegment (h startAddr size : Nat) (name : String) (accType : AccessType)
  | disconnectSharedSegment (h : Nat) (name : String)
  | deleteSegment (h startAddr : Nat)
  | deleteSharedSegment (name : String)
  | pageFault (h addr : Nat)
  | access (pid addr : Nat) (type : AccessType)

namespace KernelOp

def exec (levels : Nat) (s : KernelSystem) : KernelOp → Except Halt KernelSystem
  | .createProcess => do
      let (_, s) ← s.createProcess
      .ok s
  | .cloneProcess pid => do
      let (_, s) ← s.cloneProcess pid
      .ok s
  | .deleteProcess h => s.deleteProcess h
  | .createSegment h startAddr size accType => do
      let (_, s) ← s.createSegment h startAddr size accType
      .ok s
  | .loadSegment h startAddr size accType content => do
      let (_, s) ← s.loadSegment h startAddr size accType content
      .ok s
  | .createSharedSegment h startAddr size name accType => do
      let (_, s) ← s.createSharedSegment h startAddr size name accType
      .ok s
  | .disconnectSharedSegment h name => do
      let (_, s) ← s.disconnectSharedSegment h name
      .ok s
  | .deleteSegment h startAddr => do
      let (_, s) ← s.deleteSegment h startAddr
      .ok s
  | .deleteSharedSegment name => do
      let (_, s) ← s.deleteSharedSegment name
      .ok s
  | .pageFault h addr => s.pageFault levels h addr
  | .access pid addr type => do
      let (_, s) ← s.access levels pid addr type false
      .ok s

/-- A step of a run: the call returns. -/
def Step (levels : Nat) (s : KernelSystem) (op : KernelOp) (s' : KernelSystem) : Prop :=
  op.exec levels s = .ok s'

/-- Follow a run of calls from a small kernel, as long as a check passes at every step. -/
def runSmall (check : KernelSystem → KernelOp → KernelSystem → Bool)
    (userspcSize frames clusters : Nat) (dice : List Nat) (ops : List KernelOp) :
    Option (KernelSystem × KernelSystem) :=
  (smallKernel userspcSize frames clusters dice).toOption.bind fun start =>
    (Run.follow (fun s op => (op.exec 2 s).toOption.filter (check s op)) start ops).map
      fun s => (start, s)

theorem runSmall_run {check : KernelSystem → KernelOp → KernelSystem → Bool}
    {userspcSize frames clusters : Nat} {dice : List Nat} {start s : KernelSystem}
    {ops : List KernelOp}
    (hrun : runSmall check userspcSize frames clusters dice ops = some (start, s)) :
    smallKernel userspcSize frames clusters dice = .ok start ∧
      Run (fun s op s' => check s op s' = true ∧ op.Step 2 s s') start ops s := by
  obtain ⟨k, hk, hrest⟩ := Option.bind_eq_some_iff.mp hrun
  obtain ⟨s', hs', heq⟩ := Option.map_eq_some_iff.mp hrest
  cases heq
  refine ⟨Outcome.toOption_ok hk, Run.of_follow (fun _ _ _ hstep => ?_) hs'⟩
  obtain ⟨hexec, hcheck⟩ := Option.filter_eq_some_iff.mp hstep
  exact ⟨hcheck, Outcome.toOption_ok hexec⟩

/-- Follow a run of calls from where the first process of a small kernel was created. -/
def runFirst (check : KernelSystem → KernelOp → KernelSystem → Bool)
    (userspcSize frames clusters : Nat) (dice : List Nat) (ops : List KernelOp) :
    Option (KernelSystem × Nat × KernelSystem × KernelSystem) :=
  (smallKernel userspcSize frames clusters dice).toOption.bind fun before =>
    before.createProcess.toOption.bind fun created =>
      (Run.follow (fun s op => (op.exec 2 s).toOption.filter (check s op)) created.2 ops).map
        fun s => (before, created.1, created.2, s)

theorem runFirst_run {check : KernelSystem → KernelOp → KernelSystem → Bool}
    {userspcSize frames clusters h : Nat} {dice : List Nat} {before start s : KernelSystem}
    {ops : List KernelOp}
    (hrun : runFirst check userspcSize frames clusters dice ops = some (before, h, start, s)) :
    smallKernel userspcSize frames clusters dice = .ok before ∧
      before.createProcess = .ok (h, start) ∧
      Run (fun s op s' => check s op s' = true ∧ op.Step 2 s s') start ops s := by
  obtain ⟨k, hk, hrest⟩ := Option.bind_eq_some_iff.mp hrun
  obtain ⟨created, hcreated, hrest⟩ := Option.bind_eq_some_iff.mp hrest
  obtain ⟨s', hs', heq⟩ := Option.map_eq_some_iff.mp hrest
  cases heq
  refine ⟨Outcome.toOption_ok hk, Outcome.toOption_ok hcreated,
    Run.of_follow (fun _ _ _ hstep => ?_) hs'⟩
  obtain ⟨hexec, hcheck⟩ := Option.filter_eq_some_iff.mp hstep
  exact ⟨hcheck, Outcome.toOption_ok hexec⟩

/-- A run whose steps were not checked. -/
def anyStep (_ : KernelSystem) (_ : KernelOp) (_ : KernelSystem) : Bool := true

end KernelOp

end VirtualMemory
