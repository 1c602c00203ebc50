import VirtualMemory.MemoryRuns

/-!
# The test program

The test runs a thread for each of a number of processes. A thread makes up instructions, which
are accesses to random addresses of the segments of its process, and carries out one access
after the other under a lock that all threads share: it asks for access, has the page brought in
where access is refused, asks again, and reads or writes through the address that `get_pa`
gives. Beside that it keeps what it wrote, to know what it has to read.
-/

namespace VirtualMemory

open Function

/-- What ends the test before its time: the kernel halts, an assertion of the test fails, or it
throws because it gets no segment. -/
inductive TestHalt where
  | halt (halt : Halt)
  | assertion
  | exception
  deriving DecidableEq, Repr

def ofKernel {α : Type} (x : Except Halt α) : Except TestHalt α := x.mapError .halt

@[simp] theorem ofKernel_ok {α : Type} (a : α) : ofKernel (.ok a) = .ok a := rfl

/-- Where a segment of a test is. -/
structure TestRange where
  start : Nat
  size : Nat

def TestRange.Contains (r : TestRange) (address : Nat) : Prop :=
  r.start ≤ address ∧ address < r.start + pageSize * r.size

instance (r : TestRange) (address : Nat) : Decidable (r.Contains address) :=
  inferInstanceAs (Decidable (_ ∧ _))

/-- An entry of `checkMemory`: the bytes of a segment as the test expects them, and which of them
it knows. -/
structure CheckedSegment extends TestRange where
  first : Nat → BitVec 8
  second : Nat → Bool

/-- What a change to the segment that contains an address makes of `checkMemory`. -/
def changeFirst (address : Nat) (f : CheckedSegment → CheckedSegment) :
    List CheckedSegment → List CheckedSegment
  | [] => []
  | m :: rest => if m.Contains address then f m :: rest else m :: changeFirst address f rest

structure ProcessTest where
  process : Nat
  checkMemory : List CheckedSegment

namespace ProcessTest

def getSegmentInfo (t : ProcessTest) (address : Nat) : Except TestHalt CheckedSegment :=
  match t.checkMemory.find? fun m => decide (m.Contains address) with
  | none => .error .assertion
  | some m => .ok m

def readFromAddress (t : ProcessTest) (address : Nat) : Except TestHalt (BitVec 8) := do
  let m ← t.getSegmentInfo address
  .ok (m.first (address - m.start))

/-- A change to the bytes of the segment that `getSegmentInfo` finds, which are not copied with
it. -/
def change (t : ProcessTest) (address : Nat) (f : CheckedSegment → CheckedSegment) :
    Except TestHalt ProcessTest := do
  let _ ← t.getSegmentInfo address
  .ok { t with checkMemory := changeFirst address f t.checkMemory }

def writeToAddress (t : ProcessTest) (address : Nat) (value : BitVec 8) :
    Except TestHalt ProcessTest :=
  t.change address fun m => { m with first := update m.first (address - m.start) value }

def markDirty (t : ProcessTest) (address : Nat) : Except TestHalt ProcessTest :=
  t.change address fun m => { m with second := update m.second (address - m.start) true }

def checkValue (t : ProcessTest) (address : Nat) (value : BitVec 8) : Except TestHalt Unit := do
  let m ← t.getSegmentInfo address
  if m.second (address - m.start) && m.first (address - m.start) != value then .error .assertion
  else .ok ()

end ProcessTest

/-- An entry of an instruction: the address, the kind of access and the value to write or to
expect. -/
structure TestAccess where
  address : Nat
  accessType : AccessType
  expectedValue : BitVec 8
  deriving DecidableEq

namespace ProcessTest

/-- The accesses of an instruction after the first one, from the `k`-th on. What is written is
noted at once, before any access of the instruction is made. -/
def laterAccesses (j : Nat) (random : Nat → BitVec 8) :
    Nat → List Nat → ProcessTest → Except TestHalt (List TestAccess × ProcessTest)
  | _, [], t => .ok ([], t)
  | k, address :: numbers, t =>
      if (k + j) % 3 ≠ 0 then do
        let t ← t.writeToAddress address (random k)
        let (accesses, t) ← laterAccesses j random (k + 1) numbers t
        .ok (⟨address, .write, random k⟩ :: accesses, t)
      else do
        let data ← t.readFromAddress address
        let (accesses, t) ← laterAccesses j random (k + 1) numbers t
        .ok (⟨address, .read, data⟩ :: accesses, t)

/-- An instruction that `run` makes up from random numbers: `code` is an address of the code
segment, the others are addresses of data segments. -/
def instruction (t : ProcessTest) (j code : Nat) (numbers : List Nat)
    (random : Nat → BitVec 8) : Except TestHalt (List TestAccess × ProcessTest) := do
  let data ← t.readFromAddress code
  let (accesses, t) ← laterAccesses j random 1 numbers t
  .ok (⟨code, .execute, data⟩ :: accesses, t)

end ProcessTest

namespace KernelSystem

def getProcessId (s : KernelSystem) (process : Nat) : Except Halt Nat := do
  let p ← s.pcb process
  .ok p.pid

/-- What `doInstruction` does until it has access. `Process::pageFault` returns OK whatever
`page_fault` came to. -/
def gainAccess (levels : Nat) (s : KernelSystem) (process address : Nat) (type : AccessType) :
    Except TestHalt KernelSystem := do
  let pid ← ofKernel (s.getProcessId process)
  let (success, s) ← ofKernel (s.access levels pid address type false)
  if success = .ok then .ok s
  else do
    let s ← ofKernel (s.pageFault levels process address)
    let pid ← ofKernel (s.getProcessId process)
    let (success, s) ← ofKernel (s.access levels pid address type false)
    if success = .ok then .ok s else .error .assertion

/-- `checkAddress`: not null and in user space. -/
def checkAddress (s : KernelSystem) : Option (Nat × Nat) → Except TestHalt (Nat × Nat)
  | none => .error .assertion
  | some (f, offset) =>
      if f * pageSize + offset ≤ s.userspcSize * pageSize then .ok (f, offset)
      else .error .assertion

def getPhysicalAddress (levels : Nat) (s : KernelSystem) (process address : Nat) :
    Except TestHalt (Nat × Nat) := do
  let pa ← ofKernel (s.getPa levels process address)
  s.checkAddress pa

/-- One turn of the loop of `doInstruction`, which holds the lock of the test. With the states it
gives the value that was read, which the test itself throws away. -/
def doAccess (levels : Nat) (s : KernelSystem) (t : ProcessTest) (e : TestAccess) :
    Except TestHalt (Option (BitVec 8) × KernelSystem × ProcessTest) :=
  match e.accessType with
  | .read | .execute => do
      let s ← s.gainAccess levels t.process e.address e.accessType
      let (f, offset) ← s.getPhysicalAddress levels t.process e.address
      let value := (s.userspc f).byte (offsetOf offset)
      t.checkValue e.address e.expectedValue
      .ok (some value, s, t)
  | .write => do
      let s ← s.gainAccess levels t.process e.address e.accessType
      let (f, offset) ← s.getPhysicalAddress levels t.process e.address
      let t ← t.markDirty e.address
      .ok (none, s.withUser (s.storeByte f (offsetOf offset) e.expectedValue), t)
  | .readWrite => .ok (none, s, t)

end KernelSystem

/-- The `i`-th page of a buffer. -/
def bufferPage (buffer : Nat → BitVec 8) (i : Nat) : Page := fun cell =>
  { blockDisk := twoBytes (buffer (i * pageSize + 4 * cell)) (buffer (i * pageSize + 4 * cell + 1))
    ssegInd := buffer (i * pageSize + 4 * cell + 2)
    flags := buffer (i * pageSize + 4 * cell + 3) }

namespace ProcessTest

def alignToPage (address : Nat) : Nat := address / pageSize * pageSize

/-- The address that the constructor has for its `n`-th segment, each of them of 100 pages. -/
def segmentAddress : Nat → Nat
  | 0 => alignToPage pageSize
  | n + 1 => alignToPage (segmentAddress n + pageSize * (100 + 1))

theorem segmentAddress_eq : ∀ n, segmentAddress n = pageSize * (1 + 101 * n)
  | 0 => rfl
  | n + 1 => by
      have hnext : 1 + 101 * n + (100 + 1) = 1 + 101 * (n + 1) := by omega
      rw [segmentAddress, segmentAddress_eq n, ← Nat.mul_add, hnext, alignToPage,
        Nat.mul_div_cancel_left _ (by decide), Nat.mul_comm]

/-- The constructor throws where this does not return OK. -/
def addCodeSegment (t : ProcessTest) (s : KernelSystem) (address size : Nat) :
    Except TestHalt (KernelSystem × ProcessTest) := do
  let initData := BitVec.ofNat 8
  let (status, s) ← ofKernel (s.loadSegment t.process address size .execute (bufferPage initData))
  if status = .ok then
    .ok (s, { t with
      checkMemory := t.checkMemory ++ [⟨⟨address, size⟩, initData, fun _ => true⟩] })
  else .error .exception

/-- The buffer `data` is new, and contains anything. -/
def addDataSegment (t : ProcessTest) (s : KernelSystem) (address size : Nat)
    (data : Nat → BitVec 8) : Except TestHalt (KernelSystem × ProcessTest) := do
  let (status, s) ← ofKernel (s.createSegment t.process address size .readWrite)
  if status = .ok then
    .ok (s, { t with checkMemory := t.checkMemory ++ [⟨⟨address, size⟩, data, fun _ => false⟩] })
  else .error .exception

end ProcessTest

/-- A thread, with the accesses of its instruction that are still to be made. -/
structure TestThread where
  test : ProcessTest
  pending : List TestAccess

/-- What a thread does in one go. Segments are added by the constructor of its test. -/
inductive ThreadOp where
  | addCodeSegment (address size : Nat)
  | addDataSegment (address size : Nat) (data : Nat → BitVec 8)
  | instruction (j code : Nat) (numbers : List Nat) (random : Nat → BitVec 8)
  | doAccess

def TestThread.exec (levels : Nat) (s : KernelSystem) (x : TestThread) :
    ThreadOp → Except TestHalt (KernelSystem × TestThread)
  | .addCodeSegment address size => do
      let (s, test) ← x.test.addCodeSegment s address size
      .ok (s, { x with test := test })
  | .addDataSegment address size data => do
      let (s, test) ← x.test.addDataSegment s address size data
      .ok (s, { x with test := test })
  | .instruction j code numbers random => do
      let (accesses, test) ← x.test.instruction j code numbers random
      .ok (s, ⟨test, accesses⟩)
  | .doAccess =>
      match x.pending with
      | [] => .ok (s, x)
      | e :: rest => do
          let (_, s, test) ← s.doAccess levels x.test e
          .ok (s, ⟨test, rest⟩)

/-- The kernel and the threads of the test, each of which has a number. -/
structure TestSystem where
  kernel : KernelSystem
  threads : Nat → Option TestThread

inductive TestOp where
  | create (i : Nat)
  | thread (i : Nat) (op : ThreadOp)

/-- The threads take turns in any order. -/
def TestSystem.exec (levels : Nat) (t : TestSystem) : TestOp → Except TestHalt TestSystem
  | .create i => do
      let (h, s) ← ofKernel t.kernel.createProcess
      .ok ⟨s, update t.threads i (some ⟨⟨h, []⟩, []⟩)⟩
  | .thread i op =>
      match t.threads i with
      | none => .ok t
      | some x => do
          let (s, x) ← x.exec levels t.kernel op
          .ok ⟨s, update t.threads i (some x)⟩

namespace ProcessTest

variable {t : ProcessTest} {address : Nat} {value : BitVec 8} {known : Bool}

def ranges (t : ProcessTest) : List TestRange := t.checkMemory.map (·.toTestRange)

/-- The byte that a test expects at an address, and whether it knows it. -/
def recorded (t : ProcessTest) (address : Nat) : Option (BitVec 8 × Bool) :=
  (t.checkMemory.find? fun m => decide (m.Contains address)).map fun m =>
    (m.first (address - m.start), m.second (address - m.start))

theorem recorded_isSome :
    (t.recorded address).isSome = true ↔ ∃ r ∈ t.ranges, r.Contains address := by
  simp [recorded, ranges]

theorem getSegmentInfo_ok {expected : BitVec 8 × Bool}
    (hrecorded : t.recorded address = some expected) :
    ∃ m, t.getSegmentInfo address = .ok m ∧
      (m.first (address - m.start), m.second (address - m.start)) = expected := by
  obtain ⟨m, hm, hexpected⟩ := Option.map_eq_some_iff.mp hrecorded
  exact ⟨m, by rw [getSegmentInfo, hm], hexpected⟩

theorem readFromAddress_ok (hrecorded : t.recorded address = some (value, known)) :
    t.readFromAddress address = .ok value := by
  obtain ⟨m, hm, hexpected⟩ := getSegmentInfo_ok hrecorded
  simp only [readFromAddress, hm, Outcome.ok_bind]
  rw [(Prod.mk.inj hexpected).1]

theorem checkValue_ok (hrecorded : t.recorded address = some (value, known)) :
    t.checkValue address value = .ok () := by
  obtain ⟨m, hm, hexpected⟩ := getSegmentInfo_ok hrecorded
  simp only [checkValue, hm, Outcome.ok_bind]
  rw [(Prod.mk.inj hexpected).1]
  simp

end ProcessTest

/-- A change of the bytes at one address, in the first segment that contains it. -/
theorem find_changeFirst {address : Nat} {f : CheckedSegment → CheckedSegment}
    {g : BitVec 8 × Bool → BitVec 8 × Bool}
    (hrange : ∀ m, (f m).toTestRange = m.toTestRange)
    (hat : ∀ m : CheckedSegment, m.Contains address → ∀ i,
      ((f m).first i, (f m).second i) = if i = address - m.start then g (m.first i, m.second i)
        else (m.first i, m.second i))
    (process other : Nat) : ∀ segments : List CheckedSegment,
    (⟨process, changeFirst address f segments⟩ : ProcessTest).recorded other =
      if other = address then ((⟨process, segments⟩ : ProcessTest).recorded address).map g
      else (⟨process, segments⟩ : ProcessTest).recorded other
  | [] => by simp [changeFirst, ProcessTest.recorded]
  | m :: rest => by
      have ih := find_changeFirst hrange hat process other rest
      simp only [ProcessTest.recorded] at ih ⊢
      have hstart : (f m).start = m.start := congrArg TestRange.start (hrange m)
      have hsame : (f m).Contains other ↔ m.Contains other := by rw [hrange m]
      by_cases hm : m.Contains address
      · rw [changeFirst, if_pos hm, List.find?_cons, List.find?_cons, List.find?_cons,
          decide_eq_true hm]
        by_cases hother : m.Contains other
        · have hi : other - m.start = address - m.start ↔ other = address := by
            have := hm.1
            have := hother.1
            omega
          rw [decide_eq_true (hsame.mpr hother), decide_eq_true hother]
          simp only [Option.map_some, hstart, hat m hm, hi]
          split
          · rename_i heq
            rw [heq]
          · rfl
        · have hne : other ≠ address := fun heq => hother (heq ▸ hm)
          rw [decide_eq_false (mt hsame.mp hother), decide_eq_false hother, if_neg hne]
      · rw [changeFirst, if_neg hm, List.find?_cons, List.find?_cons, List.find?_cons,
          decide_eq_false hm]
        by_cases hother : m.Contains other
        · have hne : other ≠ address := fun heq => hm (heq ▸ hother)
          rw [decide_eq_true hother, if_neg hne]
        · rw [decide_eq_false hother]
          exact ih

theorem ranges_changeFirst {address : Nat} {f : CheckedSegment → CheckedSegment}
    (hrange : ∀ m, (f m).toTestRange = m.toTestRange) : ∀ segments : List CheckedSegment,
    (changeFirst address f segments).map (·.toTestRange) = segments.map (·.toTestRange)
  | [] => rfl
  | m :: rest => by
      unfold changeFirst
      split
      · simp [hrange]
      · simp [ranges_changeFirst hrange rest]

namespace ProcessTest

variable {t : ProcessTest} {address : Nat} {value old : BitVec 8} {known : Bool}

/-- A test that expects something else at one address. -/
structure Changed (t : ProcessTest) (address : Nat) (expected : BitVec 8 × Bool)
    (t' : ProcessTest) : Prop where
  process : t'.process = t.process
  ranges : t'.ranges = t.ranges
  recorded : ∀ other, t'.recorded other =
    if other = address then some expected else t.recorded other

theorem change_ok {f : CheckedSegment → CheckedSegment} {g : BitVec 8 × Bool → BitVec 8 × Bool}
    (hrecorded : t.recorded address = some (old, known))
    (hrange : ∀ m, (f m).toTestRange = m.toTestRange)
    (hat : ∀ m : CheckedSegment, m.Contains address → ∀ i,
      ((f m).first i, (f m).second i) = if i = address - m.start then g (m.first i, m.second i)
        else (m.first i, m.second i)) :
    ∃ t', t.change address f = .ok t' ∧ t.Changed address (g (old, known)) t' := by
  obtain ⟨m, hm, _⟩ := getSegmentInfo_ok hrecorded
  refine ⟨{ t with checkMemory := changeFirst address f t.checkMemory }, ?_, rfl,
    ranges_changeFirst hrange _, fun other => ?_⟩
  · rw [change, hm, Outcome.ok_bind]
  · rw [find_changeFirst hrange hat t.process, hrecorded, Option.map_some]

theorem writeToAddress_ok (hrecorded : t.recorded address = some (old, known))
    (value : BitVec 8) :
    ∃ t', t.writeToAddress address value = .ok t' ∧ t.Changed address (value, known) t' := by
  refine change_ok (g := fun expected => (value, expected.2)) hrecorded (fun _ => rfl) ?_
  intro m _ i
  by_cases hi : i = address - m.start
  · subst i
    simp
  · simp [hi]

theorem markDirty_ok (hrecorded : t.recorded address = some (old, known)) :
    ∃ t', t.markDirty address = .ok t' ∧ t.Changed address (old, true) t' := by
  refine change_ok (g := fun expected => (expected.1, true)) hrecorded (fun _ => rfl) ?_
  intro m _ i
  by_cases hi : i = address - m.start
  · subst i
    simp
  · simp [hi]

/-- The test has the value of an access noted. -/
def Expects (t : ProcessTest) (e : TestAccess) : Prop :=
  ∃ known, t.recorded e.address = some (e.expectedValue, known)

/-- The accesses of an instruction to given addresses, with what the test has noted of them. -/
structure MadeUp (t : ProcessTest) (numbers : List Nat) (accesses : List TestAccess)
    (t' : ProcessTest) : Prop where
  process : t'.process = t.process
  ranges : t'.ranges = t.ranges
  addresses : accesses.map (·.address) = numbers
  expects : ∀ e ∈ accesses, t'.Expects e
  unwritten : ∀ a, (∀ e ∈ accesses, e.address = a → e.accessType ≠ .write) →
    t'.recorded a = t.recorded a

theorem MadeUp.elsewhere {t' : ProcessTest} {numbers : List Nat} {accesses : List TestAccess}
    (hmade : t.MadeUp numbers accesses t') {a : Nat} (ha : a ∉ numbers) :
    t'.recorded a = t.recorded a := by
  refine hmade.unwritten a fun e he heq => absurd ?_ ha
  rw [← hmade.addresses, ← heq]
  exact List.mem_map_of_mem he

/-- Of addresses of which none is used twice, each is expected to have what was noted for it. -/
theorem laterAccesses_ok (j : Nat) (random : Nat → BitVec 8) :
    ∀ (numbers : List Nat) (k : Nat) (t : ProcessTest),
    (∀ a ∈ numbers, (t.recorded a).isSome = true) → numbers.Nodup →
    ∃ accesses t', laterAccesses j random k numbers t = .ok (accesses, t') ∧
      t.MadeUp numbers accesses t' ∧
      ∀ e ∈ accesses, e.accessType = .read ∨ e.accessType = .write
  | [], _, t, _, _ => ⟨[], t, rfl, ⟨rfl, rfl, rfl, by simp, fun _ _ => rfl⟩, by simp⟩
  | address :: numbers, k, t, hthere, hnodup => by
      obtain ⟨hnot, hnodup⟩ := List.nodup_cons.mp hnodup
      obtain ⟨⟨old, known⟩, hrecorded⟩ :=
        Option.isSome_iff_exists.mp (hthere address List.mem_cons_self)
      by_cases hk : (k + j) % 3 ≠ 0
      · obtain ⟨t₁, hwrite, hchanged⟩ := writeToAddress_ok hrecorded (random k)
        obtain ⟨accesses, t', hlater, hmade, hkinds⟩ := laterAccesses_ok j random numbers (k + 1)
          t₁ (fun a ha => by
            rw [hchanged.recorded]
            split
            · rfl
            · exact hthere a (List.mem_cons_of_mem _ ha)) hnodup
        refine ⟨⟨address, .write, random k⟩ :: accesses, t', ?_, ⟨hmade.process.trans
          hchanged.process, hmade.ranges.trans hchanged.ranges, ?_, ?_, fun a ha => ?_⟩, ?_⟩
        · rw [laterAccesses, if_pos hk, hwrite, Outcome.ok_bind, hlater]
          rfl
        · rw [List.map_cons, hmade.addresses]
        · refine List.forall_mem_cons.mpr ⟨⟨known, ?_⟩, hmade.expects⟩
          rw [hmade.elsewhere hnot, hchanged.recorded, if_pos rfl]
        · have hne : a ≠ address := fun heq => ha _ List.mem_cons_self heq.symm rfl
          rw [hmade.unwritten a fun e he => ha e (List.mem_cons_of_mem _ he), hchanged.recorded,
            if_neg hne]
        · exact List.forall_mem_cons.mpr ⟨.inr rfl, hkinds⟩
      · obtain ⟨accesses, t', hlater, hmade, hkinds⟩ := laterAccesses_ok j random numbers (k + 1) t
          (fun a ha => hthere a (List.mem_cons_of_mem _ ha)) hnodup
        refine ⟨⟨address, .read, old⟩ :: accesses, t', ?_, ⟨hmade.process, hmade.ranges, ?_, ?_,
          fun a ha => hmade.unwritten a fun e he => ha e (List.mem_cons_of_mem _ he)⟩, ?_⟩
        · rw [laterAccesses, if_neg hk, readFromAddress_ok hrecorded, Outcome.ok_bind, hlater]
          rfl
        · rw [List.map_cons, hmade.addresses]
        · refine List.forall_mem_cons.mpr ⟨⟨known, ?_⟩, hmade.expects⟩
          rw [hmade.elsewhere hnot, hrecorded]
        · exact List.forall_mem_cons.mpr ⟨.inl rfl, hkinds⟩

theorem instruction_ok (j : Nat) (random : Nat → BitVec 8) {code : Nat} {numbers : List Nat}
    (hthere : ∀ a ∈ code :: numbers, (t.recorded a).isSome = true)
    (hnodup : (code :: numbers).Nodup) :
    ∃ data accesses t', t.instruction j code numbers random =
        .ok (⟨code, .execute, data⟩ :: accesses, t') ∧
      t.MadeUp (code :: numbers) (⟨code, .execute, data⟩ :: accesses) t' ∧
      ∀ e ∈ accesses, e.accessType = .read ∨ e.accessType = .write := by
  obtain ⟨hnot, hnodup⟩ := List.nodup_cons.mp hnodup
  obtain ⟨⟨data, known⟩, hrecorded⟩ :=
    Option.isSome_iff_exists.mp (hthere code List.mem_cons_self)
  obtain ⟨accesses, t', hlater, hmade, hkinds⟩ := laterAccesses_ok j random numbers 1 t
    (fun a ha => hthere a (List.mem_cons_of_mem _ ha)) hnodup
  refine ⟨data, accesses, t', ?_, ⟨hmade.process, hmade.ranges, ?_, ?_, fun a ha =>
    hmade.unwritten a fun e he => ha e (List.mem_cons_of_mem _ he)⟩, hkinds⟩
  · rw [instruction, readFromAddress_ok hrecorded, Outcome.ok_bind, hlater]
    rfl
  · rw [List.map_cons, hmade.addresses]
  · refine List.forall_mem_cons.mpr ⟨⟨known, ?_⟩, hmade.expects⟩
    rw [hmade.elsewhere hnot, hrecorded]

theorem checkValue_error (hrecorded : t.recorded address = some (old, true))
    (hne : old ≠ value) : t.checkValue address value = .error .assertion := by
  obtain ⟨m, hm, hexpected⟩ := getSegmentInfo_ok hrecorded
  obtain ⟨hfirst, hsecond⟩ := Prod.mk.inj hexpected
  simp only [checkValue, hm, Outcome.ok_bind, hfirst, hsecond, Bool.true_and, bne_iff_ne]
  rw [if_pos hne]

/-- All that an instruction writes is noted before its first access is made. So the test fails,
whatever the kernel does, when an instruction reads an address and then writes to it. -/
theorem instruction_repeats {j code : Nat} {random : Nat → BitVec 8} (hj : (1 + j) % 3 = 0)
    (hcode : (t.recorded code).isSome = true) (hrecorded : t.recorded address = some (old, true))
    (hnew : random 2 ≠ old) :
    ∃ accesses t', t.instruction j code [address, address] random = .ok (accesses, t') ∧
      ⟨address, .read, old⟩ ∈ accesses ∧ t'.checkValue address old = .error .assertion := by
  obtain ⟨⟨data, marked⟩, hdata⟩ := Option.isSome_iff_exists.mp hcode
  obtain ⟨t', hwrite, hchanged⟩ := writeToAddress_ok hrecorded (random 2)
  have hsecond : (2 + j) % 3 ≠ 0 := by omega
  refine ⟨[⟨code, .execute, data⟩, ⟨address, .read, old⟩, ⟨address, .write, random 2⟩], t', ?_,
    by simp, checkValue_error ?_ hnew⟩
  · simp only [instruction, readFromAddress_ok hdata, laterAccesses, hj, ne_eq, not_true,
      if_false, readFromAddress_ok hrecorded, Nat.reduceAdd, hsecond, not_false_eq_true, if_true,
      hwrite, Outcome.ok_bind]
  · rw [hchanged.recorded, if_pos rfl]

example : ∃ accesses t',
    (⟨0, [⟨⟨0, 1⟩, 0, fun _ => true⟩, ⟨⟨1024, 1⟩, 0, fun _ => true⟩]⟩ :
      ProcessTest).instruction 2 0 [1030, 1030] (fun _ => 7) = .ok (accesses, t') ∧
    ⟨1030, .read, 0⟩ ∈ accesses ∧ t'.checkValue 1030 0 = .error .assertion :=
  ⟨_, _, rfl, by decide, by decide⟩

end ProcessTest

end VirtualMemory
