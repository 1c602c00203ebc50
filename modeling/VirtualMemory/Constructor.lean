import VirtualMemory.KernelCalls

/-!
# The constructor and the layout of kernel space

`KernelSystem::KernelSystem` as it works on addresses: where the four tables begin, what
is written where, and how the free pages are linked. The two platforms of the project
differ in the size of a pointer. `unsigned long`, the type of page counts, has 32 bits on
both, so a product of page counts wraps there while `size_t` products wrap at the size of
the address space. Only the links between free pages are kept as contents.
-/

namespace VirtualMemory

open Function

inductive Platform where
  | win32
  | x64
  deriving DecidableEq, Repr

namespace Platform

def pointerSize : Platform → Nat
  | .win32 => 4
  | .x64 => 8

/-- `sizeof(FrameTableEntry)`: history, flags and type, packed, and a pointer. -/
def entrySize (plat : Platform) : Nat := 4 + plat.pointerSize

/-- The number of addresses, and of values of `size_t`. -/
def addresses (plat : Platform) : Nat := 2 ^ (8 * plat.pointerSize)

end Platform

/-- A result of type `unsigned long`. -/
def ulong (n : Nat) : Nat := n % 2 ^ 32

/-- A result of type `size_t`. -/
def sizeT (plat : Platform) (n : Nat) : Nat := n % plat.addresses

/-- The constructor's arguments: two spaces of whole pages in memory, and the number of
clusters of a partition. -/
structure Spaces (plat : Platform) where
  userspc : Nat
  userspcSize : Nat
  krnlspc : Nat
  krnlspcSize : Nat
  numOfClusters : Nat
  userspcSize_pos : 0 < userspcSize
  krnlspcSize_pos : 0 < krnlspcSize
  clusters_pos : 0 < numOfClusters
  userspcSize_lt : userspcSize < 2 ^ 32
  krnlspcSize_lt : krnlspcSize < 2 ^ 32
  krnlspc_pos : 0 < krnlspc
  user_fits : userspc + userspcSize * pageSize < plat.addresses
  krnl_fits : krnlspc + krnlspcSize * pageSize < plat.addresses

/-- Bytes from a start address. -/
structure ByteRange where
  start : Nat
  length : Nat
  deriving DecidableEq, Repr

namespace ByteRange

def Disjoint (r r' : ByteRange) : Prop :=
  r.start + r.length ≤ r'.start ∨ r'.start + r'.length ≤ r.start

def Within (r r' : ByteRange) : Prop :=
  r'.start ≤ r.start ∧ r.start + r.length ≤ r'.start + r'.length

instance (r r' : ByteRange) : Decidable (r.Disjoint r') := inferInstanceAs (Decidable (_ ∨ _))

instance (r r' : ByteRange) : Decidable (r.Within r') := inferInstanceAs (Decidable (_ ∧ _))

theorem Within.trans {r r' r'' : ByteRange} (h : r.Within r') (h' : r'.Within r'') :
    r.Within r'' := ⟨h'.1.trans h.1, h.2.trans h'.2⟩

end ByteRange

/-- What was written so far, in order, and the links of the free pages by their address. A
null pointer is address 0. -/
structure LinkedMemory where
  writes : List ByteRange
  nextEmpty : Nat → Nat

namespace LinkedMemory

def put (m : LinkedMemory) (addr length : Nat) : LinkedMemory :=
  { m with writes := m.writes ++ [⟨addr, length⟩] }

/-- `page->next_empty = next`, the only field of a `PageAnte`. -/
def setNext (plat : Platform) (m : LinkedMemory) (page next : Nat) : LinkedMemory where
  writes := m.writes ++ [⟨page, plat.pointerSize⟩]
  nextEmpty := update m.nextEmpty page next

/-- `new (addr) PageAnte()`. -/
def newPageAnte (plat : Platform) (m : LinkedMemory) (addr : Nat) : LinkedMemory :=
  m.setNext plat addr 0

/-- `n` objects of one size placed one after the other. -/
def putArray (m : LinkedMemory) (addr length n : Nat) : LinkedMemory :=
  (List.range n).foldl (fun m i => m.put (addr + i * length) length) m

/-- One iteration of `lst_link_empty_space`, with the page that was the last so far. -/
def linkEmpty (plat : Platform) (startAddr : Nat) (r : LinkedMemory × Nat) (i : Nat) :
    LinkedMemory × Nat :=
  let page := startAddr + ulong (i * pageSize)
  ((r.1.newPageAnte plat page).setNext plat r.2 page, page)

/-- `lst_link_empty_space`: the memory, the head and the tail. The count it returns is
`n`. The first page is written before the loop, whatever `n` is. -/
def lstLinkEmptySpace (plat : Platform) (m : LinkedMemory) (startAddr n : Nat) :
    LinkedMemory × Nat × Nat :=
  let r := (List.range (n - 1)).foldl (fun r i => linkEmpty plat startAddr r (i + 1))
    (m.newPageAnte plat startAddr, startAddr)
  (r.1, startAddr, r.2)

/-- A list of pages as it is walked from its head. -/
def Linked (nextEmpty : Nat → Nat) : Nat → List Nat → Prop
  | head, [] => head = 0
  | head, page :: rest => head = page ∧ page ≠ 0 ∧ Linked nextEmpty (nextEmpty page) rest

instance decidableLinked (nextEmpty : Nat → Nat) : ∀ head pages,
    Decidable (Linked nextEmpty head pages)
  | _, [] => inferInstanceAs (Decidable (_ = 0))
  | _, page :: rest =>
      have := decidableLinked nextEmpty (nextEmpty page) rest
      inferInstanceAs (Decidable (_ = page ∧ page ≠ 0 ∧ _))

/-- Addresses that point to one another in turn, the last one nowhere. -/
theorem linked_range {nextEmpty : Nat → Nat} : ∀ {n : Nat} (addr : Nat → Nat),
    (∀ j, addr j ≠ 0) → (∀ j, j < n → nextEmpty (addr j) = addr (j + 1)) →
      nextEmpty (addr n) = 0 → Linked nextEmpty (addr 0) ((List.range (n + 1)).map addr)
  | 0, addr, haddr, _, hlast => ⟨rfl, haddr 0, hlast⟩
  | n + 1, addr, haddr, hstep, hlast => by
      rw [List.range_succ_eq_map, List.map_cons, List.map_map]
      refine ⟨rfl, haddr 0, ?_⟩
      rw [hstep 0 (Nat.succ_pos n)]
      exact linked_range (n := n) (addr ∘ Nat.succ) (fun j => haddr (j + 1))
        (fun j hj => hstep (j + 1) (Nat.succ_lt_succ hj)) hlast

theorem Linked.next {nextEmpty : Nat → Nat} : ∀ {pages : List Nat} {head : Nat},
    Linked nextEmpty head pages → ∀ j (hj : j + 1 < pages.length),
      nextEmpty pages[j] = pages[j + 1]
  | [], _, _, _, hj => absurd hj (Nat.not_lt_zero _)
  | [_], _, _, 0, hj => absurd hj (Nat.lt_irrefl _)
  | _ :: _ :: _, _, ⟨_, _, hrest⟩, 0, _ => hrest.1
  | _ :: _, _, ⟨_, _, hrest⟩, j + 1, hj => hrest.next j (Nat.lt_of_succ_lt_succ hj)

theorem putArray_writes {m : LinkedMemory} {addr length : Nat} (n : Nat) :
    ∀ w ∈ (m.putArray addr length n).writes,
      w ∈ m.writes ∨ w.Within ⟨addr, n * length⟩ := by
  induction n with
  | zero => exact fun w hw => .inl hw
  | succ n ih =>
      intro w hw
      rw [putArray, List.range_succ, List.foldl_append] at hw
      obtain hw | hw := List.mem_append.mp hw
      · obtain hold | hin := ih w hw
        · exact .inl hold
        · exact .inr (hin.trans ⟨Nat.le_refl _, by simp only [Nat.succ_mul]; omega⟩)
      · obtain rfl := List.mem_singleton.mp hw
        exact .inr ⟨Nat.le_add_right _ _, by simp only [Nat.succ_mul]; omega⟩

section Linking

variable {plat : Platform} {m : LinkedMemory} {startAddr : Nat}

/-- The memory and the last page after some iterations. -/
def linkPages (plat : Platform) (m : LinkedMemory) (startAddr k : Nat) : LinkedMemory × Nat :=
  (List.range k).foldl (fun r i => linkEmpty plat startAddr r (i + 1))
    (m.newPageAnte plat startAddr, startAddr)

theorem linkPages_succ (k : Nat) : linkPages plat m startAddr (k + 1) =
    linkEmpty plat startAddr (linkPages plat m startAddr k) (k + 1) := by
  rw [linkPages, List.range_succ, List.foldl_append]
  rfl

theorem linkPages_last (k : Nat) :
    (linkPages plat m startAddr k).2 = startAddr + ulong (k * pageSize) := by
  cases k with
  | zero => simp [linkPages, ulong]
  | succ k => rw [linkPages_succ, linkEmpty]

theorem linkPages_writes (k : Nat) : ∀ w ∈ (linkPages plat m startAddr k).1.writes,
    w ∈ m.writes ∨ ∃ i, i ≤ k ∧ w = ⟨startAddr + ulong (i * pageSize), plat.pointerSize⟩ := by
  induction k with
  | zero =>
      intro w hw
      obtain hw | hw := List.mem_append.mp hw
      · exact .inl hw
      · exact .inr ⟨0, Nat.le_refl 0, by simpa [ulong] using hw⟩
  | succ k ih =>
      intro w hw
      rw [linkPages_succ, linkEmpty, linkPages_last] at hw
      simp only [newPageAnte, setNext, List.append_assoc, List.mem_append, List.mem_singleton] at hw
      obtain hw | rfl | rfl := hw
      · obtain hold | ⟨i, hi, rfl⟩ := ih w hw
        · exact .inl hold
        · exact .inr ⟨i, Nat.le_succ_of_le hi, rfl⟩
      · exact .inr ⟨k + 1, Nat.le_refl _, rfl⟩
      · exact .inr ⟨k, Nat.le_succ k, rfl⟩

/-- As long as no product wraps, each page leads to the next one. -/
theorem linkPages_next (m : LinkedMemory) (startAddr : Nat) {k : Nat} (hk : k < 2 ^ 22) :
    (∀ j, j < k → (linkPages plat m startAddr k).1.nextEmpty (startAddr + j * pageSize) =
      startAddr + (j + 1) * pageSize) ∧
    (linkPages plat m startAddr k).1.nextEmpty (startAddr + k * pageSize) = 0 := by
  have hulong : ∀ i, i ≤ k → ulong (i * pageSize) = i * pageSize := by
    intro i hi
    refine Nat.mod_eq_of_lt ?_
    unfold pageSize
    omega
  induction k with
  | zero => exact ⟨nofun, by simp [linkPages, newPageAnte, setNext]⟩
  | succ k ih =>
      obtain ⟨hsteps, hlast⟩ := ih (by omega) (fun i hi => hulong i (by omega))
      have hne : ∀ i, i ≤ k → startAddr + i * pageSize ≠ startAddr + (k + 1) * pageSize := by
        intro i hi
        unfold pageSize
        omega
      rw [linkPages_succ, linkEmpty, linkPages_last, hulong (k + 1) (Nat.le_refl _),
        hulong k (Nat.le_succ k)]
      simp only [newPageAnte, setNext]
      constructor
      · intro j hj
        obtain hj | rfl := Nat.lt_succ_iff_lt_or_eq.mp hj
        · rw [update_of_ne (by unfold pageSize; omega), update_of_ne (hne j (by omega)),
            hsteps j hj]
        · rw [update_self]
      · rw [update_of_ne (hne k (Nat.le_refl k)).symm, update_self]

variable (plat) in
/-- A page that was linked leads to another one that was, or nowhere. -/
theorem linkPages_range (m : LinkedMemory) (startAddr k : Nat) : ∀ i, i ≤ k →
    (linkPages plat m startAddr k).1.nextEmpty (startAddr + ulong (i * pageSize)) = 0 ∨
      ∃ j, j ≤ k ∧ (linkPages plat m startAddr k).1.nextEmpty
        (startAddr + ulong (i * pageSize)) = startAddr + ulong (j * pageSize) := by
  induction k with
  | zero =>
      intro i hi
      obtain rfl := Nat.le_zero.mp hi
      exact .inl (by simp [linkPages, newPageAnte, setNext, ulong])
  | succ k ih =>
      intro i hi
      rw [linkPages_succ, linkEmpty, linkPages_last]
      simp only [newPageAnte, setNext]
      by_cases hlast : startAddr + ulong (i * pageSize) = startAddr + ulong (k * pageSize)
      · rw [hlast, update_self]
        exact .inr ⟨k + 1, Nat.le_refl _, rfl⟩
      · rw [update_of_ne hlast]
        by_cases hnew : startAddr + ulong (i * pageSize) = startAddr + ulong ((k + 1) * pageSize)
        · rw [hnew, update_self]
          exact .inl rfl
        · rw [update_of_ne hnew]
          obtain hi | rfl := Nat.lt_or_eq_of_le hi
          · obtain hzero | ⟨j, hj, hlink⟩ := ih i (Nat.lt_succ_iff.mp hi)
            · exact .inl hzero
            · exact .inr ⟨j, Nat.le_succ_of_le hj, hlink⟩
          · exact absurd rfl hnew

variable (plat) in
/-- A page that was linked never leads past the first `2 ^ 32` bytes of the list. -/
theorem linkPages_bound (m : LinkedMemory) (startAddr k i : Nat) (hi : i ≤ k) :
    (linkPages plat m startAddr k).1.nextEmpty (startAddr + ulong (i * pageSize)) <
      startAddr + 2 ^ 32 := by
  obtain hzero | ⟨j, _, hlink⟩ := linkPages_range plat m startAddr k i hi
  · rw [hzero]
    exact Nat.add_pos_right _ (by decide)
  · rw [hlink]
    exact Nat.add_lt_add_left (Nat.mod_lt _ (by decide)) _

end Linking

end LinkedMemory

/-- The fields of `KernelSystem` that the constructor computes. -/
structure Constructed where
  usFtSize : Nat
  ksFtSize : Nat
  ksReserved : Nat
  ksFtPtr : Nat
  usFtPtr : Nat
  dvtPtr : Nat
  diskSize : Nat
  dvtEntries : Nat
  dvtSize : Nat
  otPtr : Nat
  otSize : Nat
  usEmptyLhead : Nat
  usEmptyLtail : Nat
  usEmptyCount : Nat
  ksEmptyLhead : Nat
  ksEmptyLtail : Nat
  ksEmptyCount : Nat
  memory : LinkedMemory

namespace Spaces

variable {plat : Platform}

/-- `disk_size`. -/
def diskSize (sp : Spaces plat) : Nat :=
  if sp.numOfClusters < maxClusters then sp.numOfClusters else maxClusters

/-- The address `krnlspc + page * PAGE_SIZE`. -/
def krnlAddr (sp : Spaces plat) (page : Nat) : Nat := sp.krnlspc + ulong (page * pageSize)

/-- The writes to the disk vacancy table: all its words, and once more its last word for
each bit that stands for no cluster. -/
def writeDvt (m : LinkedMemory) (dvtPtr diskSize dvtEntries : Nat) : LinkedMemory :=
  let m := m.putArray dvtPtr 4 dvtEntries
  if diskSize % 32 ≠ 0 then
    (List.range (32 - diskSize % 32)).foldl
      (fun m _ => m.put (dvtPtr + (dvtEntries - 1) * 4) 4) m
  else m

def constructor (sp : Spaces plat) (m : LinkedMemory) : Except Halt Constructed :=
  let usFtSize := ulong (divCeil (sizeT plat (sp.userspcSize * plat.entrySize)) pageSize)
  let ksFtSize := ulong (divCeil (sizeT plat (sp.krnlspcSize * plat.entrySize)) pageSize)
  let ksFtPtr := sp.krnlspc
  let usFtPtr := ksFtPtr + ulong (ksFtSize * pageSize) / plat.entrySize * plat.entrySize
  let tables := ulong (usFtSize + ksFtSize)
  if sp.krnlspcSize < tables then .error .needsMorePages
  else
    let m := (m.putArray ksFtPtr plat.entrySize sp.krnlspcSize).putArray usFtPtr plat.entrySize
      sp.userspcSize
    let dvtPtr := sp.krnlAddr tables
    let dvtEntries := divCeil sp.diskSize 32
    let dvtSize := ulong (divCeil (sizeT plat (dvtEntries * 4)) pageSize)
    let withDvt := ulong (tables + dvtSize)
    if sp.krnlspcSize < withDvt then .error .needsMorePages
    else
      let m := writeDvt m dvtPtr sp.diskSize dvtEntries
      let otPtr := sp.krnlAddr withDvt
      let otSize := ulong (divCeil (sizeT plat (sp.userspcSize * 2)) pageSize)
      let ksReserved := ulong (withDvt + otSize)
      if sp.krnlspcSize < ksReserved then .error .needsMorePages
      else
        let user := m.lstLinkEmptySpace plat sp.userspc sp.userspcSize
        let krnl := user.1.lstLinkEmptySpace plat (sp.krnlAddr ksReserved)
          (sp.krnlspcSize - ksReserved)
        .ok {
          usFtSize, ksFtSize, ksReserved, ksFtPtr, usFtPtr, dvtPtr, dvtEntries, dvtSize, otPtr
          otSize
          diskSize := sp.diskSize
          usEmptyLhead := user.2.1
          usEmptyLtail := user.2.2
          usEmptyCount := sp.userspcSize
          ksEmptyLhead := krnl.2.1
          ksEmptyLtail := krnl.2.2
          ksEmptyCount := sp.krnlspcSize - ksReserved
          memory := krnl.1 }

theorem writeDvt_writes {m : LinkedMemory} {dvtPtr diskSize : Nat} (hpos : 0 < diskSize) :
    ∀ w ∈ (writeDvt m dvtPtr diskSize (divCeil diskSize 32)).writes,
      w ∈ m.writes ∨ w.Within ⟨dvtPtr, divCeil diskSize 32 * 4⟩ := by
  intro w hw
  unfold writeDvt at hw
  split at hw
  · -- Each further write is to the last word.
    have hlast : ∀ n : Nat, ∀ w ∈ ((List.range n).foldl (fun (m : LinkedMemory) _ =>
        m.put (dvtPtr + (divCeil diskSize 32 - 1) * 4) 4)
          (m.putArray dvtPtr 4 (divCeil diskSize 32))).writes,
        w ∈ m.writes ∨ w.Within ⟨dvtPtr, divCeil diskSize 32 * 4⟩ := by
      intro n
      induction n with
      | zero => exact LinkedMemory.putArray_writes _
      | succ n ih =>
          intro w hw
          rw [List.range_succ, List.foldl_append] at hw
          obtain hw | hw := List.mem_append.mp hw
          · exact ih w hw
          · obtain rfl := List.mem_singleton.mp hw
            refine .inr ⟨Nat.le_add_right _ _, ?_⟩
            simp only [divCeil]
            omega
    exact hlast _ w hw
  · exact LinkedMemory.putArray_writes _ w hw

/-- The pages of each table, before any product wraps. -/
def usFtPages (sp : Spaces plat) : Nat := divCeil (sp.userspcSize * plat.entrySize) pageSize
def ksFtPages (sp : Spaces plat) : Nat := divCeil (sp.krnlspcSize * plat.entrySize) pageSize
def dvtPages (sp : Spaces plat) : Nat := divCeil (divCeil sp.diskSize 32 * 4) pageSize
def otPages (sp : Spaces plat) : Nat := divCeil (sp.userspcSize * 2) pageSize

/-- `ks_reserved`, as a function of the arguments. -/
def reserved (sp : Spaces plat) : Nat :=
  KernelSystem.reservedPages sp.userspcSize sp.krnlspcSize sp.diskSize plat.entrySize

theorem reserved_eq (sp : Spaces plat) :
    sp.reserved = sp.usFtPages + sp.ksFtPages + sp.dvtPages + sp.otPages := rfl

theorem diskSize_pos (sp : Spaces plat) : 0 < sp.diskSize := by
  have := sp.clusters_pos
  unfold diskSize maxClusters
  split <;> omega

theorem diskSize_le (sp : Spaces plat) : sp.diskSize ≤ 65535 := by
  unfold diskSize maxClusters
  split <;> omega

theorem entrySize_eq (plat : Platform) : plat.entrySize = 8 ∨ plat.entrySize = 12 := by
  cases plat
  · exact .inl rfl
  · exact .inr rfl

/-- A space of `n` pages exists, so `size_t` holds the size of its frame table. -/
theorem sizeT_table {base n : Nat} (hn : n < 2 ^ 32)
    (hfits : base + n * pageSize < plat.addresses) :
    sizeT plat (n * plat.entrySize) = n * plat.entrySize ∧ sizeT plat (n * 2) = n * 2 := by
  unfold pageSize Platform.addresses at hfits
  unfold sizeT Platform.addresses Platform.entrySize
  cases plat <;> simp only [Platform.pointerSize] at hfits ⊢ <;>
    exact ⟨Nat.mod_eq_of_lt (by omega), Nat.mod_eq_of_lt (by omega)⟩

theorem usFtPages_lt (sp : Spaces plat) : sp.usFtPages < 2 ^ 26 := by
  have := sp.userspcSize_lt
  unfold usFtPages divCeil pageSize
  obtain he | he := entrySize_eq plat <;> rw [he] <;> omega

theorem ksFtPages_lt (sp : Spaces plat) : sp.ksFtPages < 2 ^ 26 := by
  have := sp.krnlspcSize_lt
  unfold ksFtPages divCeil pageSize
  obtain he | he := entrySize_eq plat <;> rw [he] <;> omega

theorem dvtEntries_le (sp : Spaces plat) : divCeil sp.diskSize 32 ≤ 2048 := by
  have := sp.diskSize_le
  unfold divCeil
  omega

theorem dvtPages_le (sp : Spaces plat) : sp.dvtPages ≤ 8 := by
  have := sp.dvtEntries_le
  unfold dvtPages
  rw [divCeil, pageSize]
  omega

theorem otPages_lt (sp : Spaces plat) : sp.otPages < 2 ^ 24 := by
  have := sp.userspcSize_lt
  unfold otPages divCeil pageSize
  omega

/-- The memory before the kernel list is made. -/
def tablesWritten (sp : Spaces plat) (m : LinkedMemory) (c : Constructed) : LinkedMemory :=
  (LinkedMemory.linkPages plat
    (writeDvt ((m.putArray c.ksFtPtr plat.entrySize sp.krnlspcSize).putArray c.usFtPtr
      plat.entrySize sp.userspcSize) c.dvtPtr sp.diskSize (divCeil sp.diskSize 32))
    sp.userspc (sp.userspcSize - 1)).1

/-- What holds of the result when the constructor returns. -/
structure Computed (sp : Spaces plat) (m : LinkedMemory) (c : Constructed) : Prop where
  fits : sp.reserved ≤ sp.krnlspcSize
  ksReserved : c.ksReserved = sp.reserved
  ksFtPtr : c.ksFtPtr = sp.krnlspc
  usFtPtr : c.usFtPtr =
    sp.krnlspc + ulong (sp.ksFtPages * pageSize) / plat.entrySize * plat.entrySize
  dvtPtr : c.dvtPtr = sp.krnlAddr (sp.usFtPages + sp.ksFtPages)
  otPtr : c.otPtr = sp.krnlAddr (sp.usFtPages + sp.ksFtPages + sp.dvtPages)
  diskSize : c.diskSize = sp.diskSize
  head : c.ksEmptyLhead = sp.krnlAddr sp.reserved
  count : c.ksEmptyCount = sp.krnlspcSize - sp.reserved
  memory : c.memory = (LinkedMemory.linkPages plat (sp.tablesWritten m c) (sp.krnlAddr sp.reserved)
    (sp.krnlspcSize - sp.reserved - 1)).1

/-- The constructor stops exactly when the tables do not fit. -/
theorem constructor_cases (sp : Spaces plat) (m : LinkedMemory) :
    (sp.krnlspcSize < sp.reserved ∧ sp.constructor m = .error .needsMorePages) ∨
      ∃ c, sp.constructor m = .ok c ∧ Computed sp m c := by
  have hus : ulong (divCeil (sizeT plat (sp.userspcSize * plat.entrySize)) pageSize) =
      sp.usFtPages := by
    rw [(sizeT_table sp.userspcSize_lt sp.user_fits).1]
    exact Nat.mod_eq_of_lt (sp.usFtPages_lt.trans (by decide))
  have hks : ulong (divCeil (sizeT plat (sp.krnlspcSize * plat.entrySize)) pageSize) =
      sp.ksFtPages := by
    rw [(sizeT_table sp.krnlspcSize_lt sp.krnl_fits).1]
    exact Nat.mod_eq_of_lt (sp.ksFtPages_lt.trans (by decide))
  have hdvt : ulong (divCeil (sizeT plat (divCeil sp.diskSize 32 * 4)) pageSize) =
      sp.dvtPages := by
    have hle := sp.dvtEntries_le
    have hsize : sizeT plat (divCeil sp.diskSize 32 * 4) = divCeil sp.diskSize 32 * 4 := by
      refine Nat.mod_eq_of_lt ?_
      cases plat <;> simp only [Platform.addresses, Platform.pointerSize] <;> omega
    rw [hsize]
    exact Nat.mod_eq_of_lt (Nat.lt_of_le_of_lt sp.dvtPages_le (by decide))
  have hot : ulong (divCeil (sizeT plat (sp.userspcSize * 2)) pageSize) = sp.otPages := by
    rw [(sizeT_table sp.userspcSize_lt sp.user_fits).2]
    exact Nat.mod_eq_of_lt (sp.otPages_lt.trans (by decide))
  have husLt := sp.usFtPages_lt
  have hksLt := sp.ksFtPages_lt
  have hdvtLe := sp.dvtPages_le
  have hotLt := sp.otPages_lt
  have htables : ulong (sp.usFtPages + sp.ksFtPages) = sp.usFtPages + sp.ksFtPages :=
    Nat.mod_eq_of_lt (by omega)
  have hwithDvt : ulong (sp.usFtPages + sp.ksFtPages + sp.dvtPages) =
      sp.usFtPages + sp.ksFtPages + sp.dvtPages := Nat.mod_eq_of_lt (by omega)
  have hall : ulong (sp.usFtPages + sp.ksFtPages + sp.dvtPages + sp.otPages) = sp.reserved :=
    Nat.mod_eq_of_lt (by omega)
  unfold constructor
  simp only [hus, hks, hdvt, hot, htables, hwithDvt, hall]
  split
  · exact .inl ⟨by rw [reserved_eq]; omega, rfl⟩
  · split
    · exact .inl ⟨by rw [reserved_eq]; omega, rfl⟩
    · split
      · rename_i hsmall
        exact .inl ⟨hsmall, rfl⟩
      · rename_i hfits
        exact .inr ⟨_, rfl, Nat.le_of_not_lt hfits, rfl, rfl, rfl, rfl, rfl, rfl, rfl, rfl, rfl⟩

theorem constructor_ok {sp : Spaces plat} {m : LinkedMemory} {c : Constructed}
    (h : sp.constructor m = .ok c) : Computed sp m c := by
  obtain ⟨_, herror⟩ | ⟨c', hc', hcomputed⟩ := sp.constructor_cases m
  · rw [herror] at h
    cases h
  · rw [hc'] at h
    cases h
    exact hcomputed

/-- The tables of kernel space: an entry for each kernel frame, each user frame, each 32
clusters and each user frame. -/
def tables (sp : Spaces plat) (c : Constructed) : List ByteRange :=
  [⟨c.ksFtPtr, sp.krnlspcSize * plat.entrySize⟩, ⟨c.usFtPtr, sp.userspcSize * plat.entrySize⟩,
    ⟨c.dvtPtr, divCeil c.diskSize 32 * 4⟩, ⟨c.otPtr, sp.userspcSize * 2⟩]

def krnlRange (sp : Spaces plat) : ByteRange := ⟨sp.krnlspc, sp.krnlspcSize * pageSize⟩

def userRange (sp : Spaces plat) : ByteRange := ⟨sp.userspc, sp.userspcSize * pageSize⟩

/-- The addresses of the kernel frames that are not reserved. -/
def freeFrames (sp : Spaces plat) (c : Constructed) : List Nat :=
  (List.range (sp.krnlspcSize - c.ksReserved)).map fun i =>
    sp.krnlspc + (c.ksReserved + i) * pageSize

/-- Kernel space is laid out safely. -/
structure LaidOut (sp : Spaces plat) (c : Constructed) : Prop where
  disjoint : (sp.tables c).Pairwise ByteRange.Disjoint
  inside : ∀ r ∈ sp.tables c, r.Within ⟨sp.krnlspc, c.ksReserved * pageSize⟩
  written : ∀ w ∈ c.memory.writes, w.Within sp.krnlRange ∨ w.Within sp.userRange
  freeList : LinkedMemory.Linked c.memory.nextEmpty c.ksEmptyLhead (sp.freeFrames c)
  count : c.ksEmptyCount = (sp.freeFrames c).length

theorem krnlAddr_eq {sp : Spaces plat} {page : Nat} (hpage : page < 2 ^ 22) :
    sp.krnlAddr page = sp.krnlspc + page * pageSize := by
  unfold krnlAddr ulong pageSize
  rw [Nat.mod_eq_of_lt (by omega)]

theorem ksFt_fits (sp : Spaces plat) :
    sp.krnlspcSize * plat.entrySize ≤ sp.ksFtPages * pageSize := by
  unfold ksFtPages divCeil pageSize
  omega

theorem usFt_fits (sp : Spaces plat) :
    sp.userspcSize * plat.entrySize ≤ sp.usFtPages * pageSize := by
  unfold usFtPages divCeil pageSize
  omega

theorem dvt_fits (sp : Spaces plat) : divCeil sp.diskSize 32 * 4 ≤ sp.dvtPages * pageSize := by
  unfold dvtPages
  rw [divCeil, divCeil, pageSize]
  omega

theorem ot_fits (sp : Spaces plat) : sp.userspcSize * 2 ≤ sp.otPages * pageSize := by
  unfold otPages divCeil pageSize
  omega

namespace Computed

variable {sp : Spaces plat} {m : LinkedMemory} {c : Constructed} {links : Nat → Nat}

/-- The user table begins at an entry of its own size, between the end of the kernel table
and the end of its pages. -/
theorem usFtPtr_bounds (h : Computed sp m c) (hres : sp.reserved < 2 ^ 22) :
    sp.krnlspc + sp.krnlspcSize * plat.entrySize ≤ c.usFtPtr ∧
      c.usFtPtr ≤ sp.krnlspc + sp.ksFtPages * pageSize := by
  have hpages : sp.ksFtPages < 2 ^ 22 := by
    have := sp.reserved_eq
    omega
  have hulong : ulong (sp.ksFtPages * pageSize) = sp.ksFtPages * pageSize := by
    refine Nat.mod_eq_of_lt ?_
    unfold pageSize
    omega
  have he : 0 < plat.entrySize := Nat.add_pos_left (by decide) _
  rw [h.usFtPtr, hulong]
  constructor
  · refine Nat.add_le_add_left (Nat.mul_le_mul_right _ ?_) _
    exact (Nat.le_div_iff_mul_le he).mpr sp.ksFt_fits
  · exact Nat.add_le_add_left (Nat.div_mul_le_self _ _) _

theorem tables_safe (h : Computed sp m c) (hres : sp.reserved < 2 ^ 22) :
    (sp.tables c).Pairwise ByteRange.Disjoint ∧
      ∀ r ∈ sp.tables c, r.Within ⟨sp.krnlspc, c.ksReserved * pageSize⟩ := by
  obtain ⟨hus, hus'⟩ := h.usFtPtr_bounds hres
  have hsum := sp.reserved_eq
  have hks := sp.ksFt_fits
  have husFt := sp.usFt_fits
  have hdvt := sp.dvt_fits
  have hot := sp.ot_fits
  have hdvtPtr := h.dvtPtr
  rw [krnlAddr_eq (by omega)] at hdvtPtr
  have hotPtr := h.otPtr
  rw [krnlAddr_eq (by omega)] at hotPtr
  simp only [pageSize] at *
  simp only [tables, h.ksFtPtr, h.diskSize, h.ksReserved, hdvtPtr, hotPtr, List.pairwise_cons,
    List.mem_cons, List.not_mem_nil, or_false, forall_eq_or_imp, forall_eq, ByteRange.Disjoint,
    ByteRange.Within]
  refine ⟨⟨⟨?_, ?_, ?_⟩, ⟨?_, ?_⟩, ?_, ?_⟩, ?_, ?_, ?_, ?_⟩ <;> first | omega | simp

theorem written_safe (h : Computed sp ⟨[], links⟩ c) (hres : sp.reserved < 2 ^ 22)
    (hroom : sp.reserved < sp.krnlspcSize) (hlist : sp.krnlspcSize ≤ sp.reserved + 2 ^ 22) :
    ∀ w ∈ c.memory.writes, w.Within sp.krnlRange ∨ w.Within sp.userRange := by
  have hpointer : plat.pointerSize ≤ pageSize := by cases plat <;> decide
  have hinside : ∀ r ∈ sp.tables c, r.Within sp.krnlRange := fun r hr =>
    ((h.tables_safe hres).2 r hr).trans ⟨Nat.le_refl _, by
      simp only [krnlRange, h.ksReserved]
      exact Nat.add_le_add_left (Nat.mul_le_mul_right _ h.fits) _⟩
  intro w hw
  rw [h.memory, krnlAddr_eq hres] at hw
  obtain hw | ⟨i, hi, rfl⟩ := LinkedMemory.linkPages_writes _ w hw
  · obtain hw | ⟨i, hi, rfl⟩ := LinkedMemory.linkPages_writes _ w hw
    · refine .inl ?_
      obtain hw | hin := writeDvt_writes sp.diskSize_pos w hw
      · obtain hw | hin := LinkedMemory.putArray_writes _ w hw
        · obtain hw | hin := LinkedMemory.putArray_writes _ w hw
          · cases hw
          · exact hin.trans (hinside _ (by simp [tables]))
        · exact hin.trans (hinside _ (by simp [tables]))
      · exact hin.trans (hinside _ (by simp [tables, h.diskSize]))
    · -- The offset of a user page wraps in a large space, but never leaves it.
      have hpos := sp.userspcSize_pos
      have hle : ulong (i * pageSize) ≤ i * pageSize := Nat.mod_le _ _
      refine .inr ⟨Nat.le_add_right _ _, ?_⟩
      simp only [userRange, pageSize] at *
      omega
  · have hulong : ulong (i * pageSize) = i * pageSize := by
      refine Nat.mod_eq_of_lt ?_
      unfold pageSize
      omega
    rw [hulong]
    refine .inl ⟨?_, ?_⟩ <;> simp only [krnlRange, pageSize] at * <;> omega

theorem freeList_linked (h : Computed sp m c) (hres : sp.reserved < 2 ^ 22)
    (hroom : sp.reserved < sp.krnlspcSize) (hlist : sp.krnlspcSize ≤ sp.reserved + 2 ^ 22) :
    LinkedMemory.Linked c.memory.nextEmpty c.ksEmptyLhead (sp.freeFrames c) := by
  obtain ⟨n, hn⟩ := Nat.exists_eq_add_of_lt hroom
  have hcount : sp.krnlspcSize - sp.reserved = n + 1 := by omega
  have hpos := sp.krnlspc_pos
  obtain ⟨hsteps, hlast⟩ := LinkedMemory.linkPages_next (sp.tablesWritten m c)
    (sp.krnlspc + sp.reserved * pageSize) (k := n) (by omega)
  rw [h.head, h.memory, freeFrames, h.ksReserved, hcount, Nat.add_sub_cancel, krnlAddr_eq hres]
  have haddr : ∀ j, sp.krnlspc + (sp.reserved + j) * pageSize =
      sp.krnlspc + sp.reserved * pageSize + j * pageSize := fun j => by
    rw [Nat.add_mul, Nat.add_assoc]
  refine LinkedMemory.linked_range (fun j => sp.krnlspc + (sp.reserved + j) * pageSize)
    (fun j => ?_) (fun j hj => ?_) ?_
  · omega
  · rw [haddr, haddr]
    exact hsteps j hj
  · rw [haddr]
    exact hlast

/-- The products that the kernel list is made with do not wrap, or the list goes wrong. -/
theorem of_linked (h : Computed sp m c)
    (hlinked : LinkedMemory.Linked c.memory.nextEmpty c.ksEmptyLhead (sp.freeFrames c)) :
    sp.reserved ≠ sp.krnlspcSize ∧ sp.reserved < 2 ^ 22 ∧
      sp.krnlspcSize ≤ sp.reserved + 2 ^ 22 := by
  have hpos := sp.krnlspc_pos
  have hhead : c.ksEmptyLhead = sp.krnlspc + ulong (sp.reserved * pageSize) := h.head
  have hroom : sp.reserved ≠ sp.krnlspcSize := by
    intro hfull
    rw [freeFrames, h.ksReserved, hfull, Nat.sub_self] at hlinked
    have hnull : c.ksEmptyLhead = 0 := hlinked
    omega
  obtain ⟨n, hn⟩ := Nat.exists_eq_add_of_lt (Nat.lt_of_le_of_ne h.fits hroom)
  have hcount : sp.krnlspcSize - sp.reserved = n + 1 := by omega
  have hfirst : c.ksEmptyLhead = sp.krnlspc + sp.reserved * pageSize := by
    rw [freeFrames, h.ksReserved, hcount, List.range_succ_eq_map, List.map_cons] at hlinked
    exact hlinked.1
  have hwrap : ulong (sp.reserved * pageSize) = sp.reserved * pageSize := by omega
  refine ⟨hroom, ?_, ?_⟩
  · have hlt : ulong (sp.reserved * pageSize) < 2 ^ 32 := Nat.mod_lt _ (by decide)
    rw [hwrap] at hlt
    unfold pageSize at hlt
    omega
  · -- The page after the first `2 ^ 22` is at an offset that no product reaches.
    by_contra hlarge
    have hbound := LinkedMemory.linkPages_bound plat (sp.tablesWritten m c)
      (sp.krnlspc + sp.reserved * pageSize) n (2 ^ 22 - 1) (by omega)
    have hnext := hlinked.next (2 ^ 22 - 1)
      (by rw [freeFrames, h.ksReserved, List.length_map, List.length_range]; omega)
    simp only [freeFrames, h.ksReserved, List.getElem_map, List.getElem_range] at hnext
    rw [h.memory, krnlAddr, hwrap, hcount, Nat.add_sub_cancel] at hnext
    have hat : sp.krnlspc + (sp.reserved + (2 ^ 22 - 1)) * pageSize =
        sp.krnlspc + sp.reserved * pageSize + ulong ((2 ^ 22 - 1) * pageSize) := by
      rw [show ulong ((2 ^ 22 - 1) * pageSize) = (2 ^ 22 - 1) * pageSize by decide, Nat.add_mul,
        Nat.add_assoc]
    rw [hat] at hnext
    rw [hnext] at hbound
    unfold pageSize at hbound
    omega

end Computed

/-- A constructor that returns has laid out kernel space safely exactly when the tables
leave a frame free and no offset into kernel space reaches `2 ^ 32`. -/
theorem constructor_laidOut {sp : Spaces plat} {links : Nat → Nat} {c : Constructed}
    (h : sp.constructor ⟨[], links⟩ = .ok c) :
    LaidOut sp c ↔ sp.reserved ≠ sp.krnlspcSize ∧ sp.reserved < 2 ^ 22 ∧
      sp.krnlspcSize ≤ sp.reserved + 2 ^ 22 := by
  have hc := constructor_ok h
  constructor
  · intro hlaid
    exact hc.of_linked hlaid.freeList
  · rintro ⟨hne, hres, hlist⟩
    have hroom := Nat.lt_of_le_of_ne hc.fits hne
    obtain ⟨hdisjoint, hinside⟩ := hc.tables_safe hres
    refine ⟨hdisjoint, hinside, hc.written_safe hres hroom hlist,
      hc.freeList_linked hres hroom hlist, ?_⟩
    rw [freeFrames, List.length_map, List.length_range, hc.count, hc.ksReserved]

/-- A kernel space of six pages, of which the tables of one user page take four. -/
def sixPages : Spaces .win32 where
  userspc := 0x10000
  userspcSize := 1
  krnlspc := 0x20000
  krnlspcSize := 6
  numOfClusters := 1
  userspcSize_pos := by decide
  krnlspcSize_pos := by decide
  clusters_pos := by decide
  userspcSize_lt := by decide
  krnlspcSize_lt := by decide
  krnlspc_pos := by decide
  user_fits := by decide
  krnl_fits := by decide

theorem constructor_laidOut_sixPages :
    ∃ c, sixPages.constructor ⟨[], fun _ => 0⟩ = .ok c ∧ LaidOut sixPages c :=
  ⟨_, rfl, (constructor_laidOut rfl).mpr (by decide)⟩

/-- A kernel space that the same tables fill. -/
def fourPages : Spaces .win32 := { sixPages with
  krnlspcSize := 4
  krnlspcSize_pos := by decide
  krnlspcSize_lt := by decide
  krnl_fits := by decide }

/-- The constructor returns, after a write to the page behind kernel space, which it leaves
as the head of an empty list. -/
theorem constructor_not_laidOut :
    ∃ c, fourPages.constructor ⟨[], fun _ => 0⟩ = .ok c ∧ c.ksReserved = 4 ∧
      ⟨fourPages.krnlspc + 4 * pageSize, 4⟩ ∈ c.memory.writes ∧ c.ksEmptyLhead ≠ 0 ∧
      c.ksEmptyCount = 0 ∧ ¬ LaidOut fourPages c := by
  refine ⟨_, rfl, rfl, by decide, by decide, rfl, fun hlaid => ?_⟩
  have hempty := hlaid.freeList
  revert hempty
  decide

/-- The frames that the constructor links are those the kernel starts with. -/
theorem constructor_kernel {sp : Spaces plat} {m : LinkedMemory} {us : UserSpace KAddr}
    (hsize : us.userspcSize = sp.userspcSize) (hdisk : us.diskSize = sp.diskSize) :
    (∀ e, sp.constructor m = .error e ↔
      KernelSystem.construct us sp.krnlspcSize plat.entrySize = .error e) ∧
    ∀ c, sp.constructor m = .ok c → ∃ s,
      KernelSystem.construct us sp.krnlspcSize plat.entrySize = .ok s ∧
      s.ksReserved = c.ksReserved ∧ s.ksEmpty.length = c.ksEmptyCount ∧
      s.ksEmpty.map (fun f => sp.krnlspc + f * pageSize) = sp.freeFrames c := by
  have hreserved : KernelSystem.reservedPages us.userspcSize sp.krnlspcSize us.diskSize
      plat.entrySize = sp.reserved := by rw [hsize, hdisk, reserved]
  unfold KernelSystem.construct
  simp only [hreserved]
  obtain ⟨hsmall, herror⟩ | ⟨c, hc, hcomputed⟩ := sp.constructor_cases m
  · rw [herror, if_pos hsmall]
    exact ⟨fun e => ⟨fun h => by cases h; rfl, fun h => by cases h; rfl⟩, nofun⟩
  · rw [hc, if_neg (Nat.not_lt.mpr hcomputed.fits)]
    refine ⟨fun e => ⟨nofun, nofun⟩, fun c' hc' => ?_⟩
    cases hc'
    refine ⟨_, rfl, hcomputed.ksReserved.symm, ?_, ?_⟩
    · simp [hcomputed.count]
    · simp [freeFrames, hcomputed.ksReserved, Function.comp_def]

end Spaces

end VirtualMemory
