import VirtualMemory.Library.Run
import VirtualMemory.UserMachine

/-!
# The disk vacancy table

The table as it lies in kernel space: 32-bit words, the first cluster at the high bit of the
first word. The clusters whose bits are ones form a set. Acquiring a cluster takes the least
element out, and marking one adds or removes that one; the search for the set's least element
is what user paging does with the same bits.
-/

namespace VirtualMemory

open Function

/-- `DVTE_SIZE`. -/
def dvteSize : Nat := 32

/-- `BIT_CLR`. -/
def bitClr {w : Nat} (number : BitVec w) (bit : Nat) : BitVec w := number &&& ~~~(1#w <<< bit)

theorem bitClr_eq_bitVal {w : Nat} (number : BitVec w) (bit : Nat) :
    bitClr number bit = bitVal number bit false := by
  simp [bitClr, bitVal]

/-- What `_BitScanReverse` is documented to find: the highest one bit of a word. -/
def FindsHighest (scan : BitVec 32 → Nat) : Prop :=
  ∀ word, word ≠ 0#32 → scan word < 32 ∧ word.getLsbD (scan word) = true ∧
    ∀ bit, scan word < bit → word.getLsbD bit = false

/-- The words that `dvt_ptr` points to, of which `dvt_entries` belong to the table. -/
structure VacancyTable where
  diskSize : Nat
  dvtEntries : Nat
  dvtPtr : Nat → BitVec 32

namespace VacancyTable

def setWord (t : VacancyTable) (entry : Nat) (word : BitVec 32) : VacancyTable :=
  { t with dvtPtr := update t.dvtPtr entry word }

/-- The part of the constructor that builds the table, in whatever kernel space contains. -/
def construct (numOfClusters : Nat) (krnlspc : Nat → BitVec 32) : VacancyTable :=
  let diskSize := min numOfClusters maxClusters
  let dvtEntries := divCeil diskSize dvteSize
  let t := (List.range dvtEntries).foldl (fun t i => t.setWord i 0xFFFFFFFF#32)
    ⟨diskSize, dvtEntries, krnlspc⟩
  if diskSize % dvteSize ≠ 0 then
    (List.range (dvteSize - diskSize % dvteSize)).foldl
      (fun t i => t.setWord (dvtEntries - 1) (t.dvtPtr (dvtEntries - 1) ^^^ 1#32 <<< i)) t
  else t

def dvtGet (t : VacancyTable) (cluster : Nat) : Bool :=
  bitGet (t.dvtPtr (cluster / dvteSize)) (dvteSize - cluster % dvteSize - 1)

def dvtMark (t : VacancyTable) (cluster : Nat) (free : Bool) : VacancyTable :=
  let entry := cluster / dvteSize
  let bit := dvteSize - cluster % dvteSize - 1
  t.setWord entry (bitVal (t.dvtPtr entry) bit free)

/-- The cluster, unless there is none, and the table. `scan` is `_BitScanReverse`. -/
def dvtAcquireCluster (scan : BitVec 32 → Nat) (t : VacancyTable) : Option Nat × VacancyTable :=
  match (List.range t.dvtEntries).find? fun i => t.dvtPtr i != 0#32 with
  | none => (none, t)
  | some i =>
      let ind := scan (t.dvtPtr i)
      (some (i * dvteSize + (dvteSize - ind - 1)), t.setWord i (bitClr (t.dvtPtr i) ind))

variable {t : VacancyTable} {scan : BitVec 32 → Nat} {cluster n : Nat}

@[simp] theorem setWord_self (t : VacancyTable) (entry : Nat) (word : BitVec 32) :
    (t.setWord entry word).dvtPtr entry = word := update_self ..

theorem setWord_of_ne {entry other : Nat} (hne : other ≠ entry) (word : BitVec 32) :
    (t.setWord entry word).dvtPtr other = t.dvtPtr other := update_of_ne hne ..

theorem dvtGet_eq (t : VacancyTable) (cluster : Nat) :
    t.dvtGet cluster = (t.dvtPtr (cluster / 32)).getLsbD (31 - cluster % 32) := by
  have hbit : dvteSize - cluster % dvteSize - 1 = 31 - cluster % 32 := by
    unfold dvteSize
    omega
  rw [dvtGet, hbit]
  exact bitGet_eq_getLsbD _ (by omega)

/-- Marking a cluster is nothing to the other ones. -/
theorem dvtGet_dvtMark (t : VacancyTable) (cluster : Nat) (free : Bool) :
    (t.dvtMark cluster free).dvtGet = update t.dvtGet cluster free := by
  funext n
  by_cases hentry : n / dvteSize = cluster / dvteSize
  · have hbit : dvteSize - n % dvteSize - 1 = dvteSize - cluster % dvteSize - 1 ↔ n = cluster := by
      unfold dvteSize at hentry ⊢
      omega
    rw [dvtGet, dvtMark, hentry, setWord_self, bitGet_bitVal _ _ (by unfold dvteSize; omega)
      (by unfold dvteSize; omega)]
    by_cases hn : n = cluster
    · rw [if_pos (hbit.mpr hn), hn, update_self]
    · rw [if_neg (mt hbit.mp hn), update_of_ne hn, dvtGet, hentry]
  · have hn : n ≠ cluster := fun heq => hentry (heq ▸ rfl)
    rw [dvtGet, dvtMark, setWord_of_ne hentry, update_of_ne hn, dvtGet]

/-- A word is a row of 32 clusters. -/
theorem word_ne_zero_iff (i : Nat) :
    t.dvtPtr i ≠ 0#32 ↔ ∃ n, n / 32 = i ∧ t.dvtGet n = true := by
  rw [Ne, BitVec.eq_of_getLsbD_eq_iff]
  constructor
  · intro hword
    push Not at hword
    obtain ⟨bit, hlt, hbit⟩ := hword
    refine ⟨i * 32 + (31 - bit), by omega, ?_⟩
    rw [dvtGet_eq, show (i * 32 + (31 - bit)) / 32 = i by omega,
      show 31 - (i * 32 + (31 - bit)) % 32 = bit by omega]
    simpa using hbit
  · rintro ⟨n, rfl, hn⟩ hword
    have hbit := hword (31 - n % 32) (by omega)
    rw [dvtGet_eq] at hn
    simp [hn] at hbit

/-- The search by words and bits is the search of the clusters in turn. -/
theorem dvtAcquireCluster_eq (hscan : FindsHighest scan) (t : VacancyTable) :
    t.dvtAcquireCluster scan =
      match (List.range (t.dvtEntries * 32)).find? t.dvtGet with
      | none => (none, t)
      | some n => (some n, t.dvtMark n false) := by
  unfold dvtAcquireCluster
  cases hword : (List.range t.dvtEntries).find? fun i => t.dvtPtr i != 0#32 with
  | none =>
      have hnone : (List.range (t.dvtEntries * 32)).find? t.dvtGet = none := by
        rw [List.find?_range_eq_none]
        intro n hn
        have hzero := List.find?_range_eq_none.mp hword (n / 32) (by omega)
        by_contra hone
        exact (word_ne_zero_iff (t := t) (n / 32)).mpr ⟨n, rfl, by simpa using hone⟩
          (by simpa using hzero)
      rw [hnone]
  | some i =>
      obtain ⟨hne, hi, hbefore⟩ := List.find?_range_eq_some.mp hword
      obtain ⟨hlt, hone, habove⟩ := hscan (t.dvtPtr i) (by simpa using hne)
      have hi : i < t.dvtEntries := List.mem_range.mp hi
      have hentry : (i * 32 + (31 - scan (t.dvtPtr i))) / 32 = i := by omega
      have hbit : 31 - (i * 32 + (31 - scan (t.dvtPtr i))) % 32 = scan (t.dvtPtr i) := by omega
      have hfind : (List.range (t.dvtEntries * 32)).find? t.dvtGet =
          some (i * 32 + (31 - scan (t.dvtPtr i))) := by
        rw [List.find?_range_eq_some]
        refine ⟨?_, List.mem_range.mpr (by omega), fun n hn => ?_⟩
        · rw [dvtGet_eq, hentry, hbit]
          exact hone
        · rw [Bool.not_eq_true', dvtGet_eq]
          obtain hrow | hrow := Nat.lt_or_ge (n / 32) i
          · have hzero := hbefore (n / 32) hrow
            rw [show t.dvtPtr (n / 32) = 0#32 by simpa using hzero, BitVec.getLsbD_zero]
          · rw [show n / 32 = i by omega]
            exact habove _ (by omega)
      have hmark : t.dvtMark (i * 32 + (31 - scan (t.dvtPtr i))) false =
          t.setWord i (bitClr (t.dvtPtr i) (scan (t.dvtPtr i))) := by
        have hind : 32 - (i * 32 + (31 - scan (t.dvtPtr i))) % 32 - 1 = scan (t.dvtPtr i) := by
          omega
        simp only [dvtMark, dvteSize, hentry, hind, bitClr_eq_bitVal]
      have hcluster : i * dvteSize + (dvteSize - scan (t.dvtPtr i) - 1) =
          i * 32 + (31 - scan (t.dvtPtr i)) := by
        unfold dvteSize
        omega
      rw [hfind]
      simp only [hcluster, hmark]

theorem fill_eq (t : VacancyTable) (k : Nat) :
    (List.range k).foldl (fun t i => t.setWord i 0xFFFFFFFF#32) t =
      { t with dvtPtr := fun i => if i < k then 0xFFFFFFFF#32 else t.dvtPtr i } := by
  induction k with
  | zero => simp
  | succ k ih =>
      rw [List.range_succ, List.foldl_append, ih, List.foldl_cons, List.foldl_nil, setWord]
      congr 1
      funext i
      by_cases hi : i = k
      · rw [hi, update_self, if_pos (Nat.lt_succ_self k)]
      · rw [update_of_ne hi]
        exact if_congr (by omega) rfl rfl

/-- The bits of a word that `k` turns of the loop of `xor` change. -/
theorem flip_eq (t : VacancyTable) (entry k : Nat) :
    ∃ word, (List.range k).foldl (fun t i => t.setWord entry (t.dvtPtr entry ^^^ 1#32 <<< i)) t =
      t.setWord entry word ∧
      ∀ bit < 32, word.getLsbD bit = ((t.dvtPtr entry).getLsbD bit ^^ decide (bit < k)) := by
  induction k with
  | zero => exact ⟨t.dvtPtr entry, by simp [setWord], fun bit _ => by simp⟩
  | succ k ih =>
      obtain ⟨word, hfold, hword⟩ := ih
      refine ⟨word ^^^ 1#32 <<< k, ?_, fun bit hbit => ?_⟩
      · rw [List.range_succ, List.foldl_append, hfold, List.foldl_cons, List.foldl_nil,
          setWord_self]
        simp [setWord]
      · have hone : (1#32 <<< k).getLsbD bit = decide (bit = k) := by
          rw [← BitVec.twoPow_eq, BitVec.getLsbD_twoPow, ← Bool.decide_and]
          exact decide_eq_decide.mpr (by omega)
        have hlt : decide (bit < k + 1) = (decide (bit < k) ^^ decide (bit = k)) := by
          by_cases hk : bit = k
          · simp [hk]
          · have hiff : bit < k + 1 ↔ bit < k := by omega
            simp [hk, hiff]
        rw [BitVec.getLsbD_xor, hword bit hbit, hone, hlt, Bool.xor_assoc]

theorem construct_sizes (numOfClusters : Nat) (krnlspc : Nat → BitVec 32) :
    (construct numOfClusters krnlspc).diskSize = min numOfClusters maxClusters ∧
      (construct numOfClusters krnlspc).dvtEntries =
        divCeil (min numOfClusters maxClusters) dvteSize := by
  unfold construct
  simp only [fill_eq]
  split
  · obtain ⟨word, hfold, _⟩ := flip_eq ⟨min numOfClusters maxClusters,
      divCeil (min numOfClusters maxClusters) dvteSize, fun i =>
        if i < divCeil (min numOfClusters maxClusters) dvteSize then 0xFFFFFFFF#32 else krnlspc i⟩
      (divCeil (min numOfClusters maxClusters) dvteSize - 1)
      (dvteSize - min numOfClusters maxClusters % dvteSize)
    rw [hfold]
    exact ⟨rfl, rfl⟩
  · exact ⟨rfl, rfl⟩

/-- A bit of the table is a one just when it is that of a cluster. -/
theorem construct_dvtGet {numOfClusters : Nat} (hpos : 0 < numOfClusters)
    (krnlspc : Nat → BitVec 32) {n : Nat}
    (hn : n < (construct numOfClusters krnlspc).dvtEntries * 32) :
    (construct numOfClusters krnlspc).dvtGet n =
      decide (n < (construct numOfClusters krnlspc).diskSize) := by
  have hsize : 0 < min numOfClusters maxClusters := Nat.lt_min.mpr ⟨hpos, by decide⟩
  unfold construct at hn ⊢
  generalize min numOfClusters maxClusters = diskSize at hsize hn ⊢
  have hentries : divCeil diskSize 32 = 1 + (diskSize - 1) / 32 := rfl
  have hone : ∀ bit < 32, (0xFFFFFFFF#32).getLsbD bit = true := by
    decide
  simp only [fill_eq, dvteSize] at hn ⊢
  by_cases hpart : diskSize % 32 = 0
  · simp only [hpart, ne_eq, not_true, if_false] at hn ⊢
    rw [dvtGet_eq]
    dsimp only at hn ⊢
    rw [if_pos (by omega), hone _ (by omega)]
    exact (decide_eq_true (by omega)).symm
  · simp only [hpart, ne_eq, not_false_eq_true, if_true] at hn ⊢
    obtain ⟨word, hfold, hword⟩ := flip_eq
      ⟨diskSize, divCeil diskSize 32, fun i =>
        if i < divCeil diskSize 32 then 0xFFFFFFFF#32 else krnlspc i⟩
      (divCeil diskSize 32 - 1) (32 - diskSize % 32)
    have hfull : ∀ i < divCeil diskSize 32, ∀ bit < 32, ((⟨diskSize, divCeil diskSize 32, fun i =>
        if i < divCeil diskSize 32 then 0xFFFFFFFF#32 else krnlspc i⟩ : VacancyTable).dvtPtr
          i).getLsbD bit = true := fun i hi bit hbit => by
      dsimp only
      rw [if_pos hi, hone bit hbit]
    rw [hfold] at hn ⊢
    have hn : n < divCeil diskSize 32 * 32 := hn
    rw [dvtGet_eq]
    by_cases hlast : n / 32 = divCeil diskSize 32 - 1
    · rw [hlast, setWord_self, hword _ (by omega), hfull _ (by omega) _ (by omega), Bool.true_xor,
        ← decide_not]
      refine decide_eq_decide.mpr ?_
      change _ ↔ n < diskSize
      omega
    · rw [setWord_of_ne hlast, hfull _ (by omega) _ (by omega)]
      refine (decide_eq_true ?_).symm
      change n < diskSize
      omega

/-- A call on the table, with what an acquisition returns. -/
inductive Call where
  | acquire (result : Option Nat)
  | mark (cluster : Nat) (free : Bool)

/-- A call on the table in memory; only clusters of the disk are marked. -/
def Step (scan : BitVec 32 → Nat) (t : VacancyTable) (c : Call) (t' : VacancyTable) : Prop :=
  match c with
  | .acquire result => t.dvtAcquireCluster scan = (result, t')
  | .mark cluster free => cluster < t.diskSize ∧ t' = t.dvtMark cluster free

/-- The same call on a set of clusters. -/
def SetStep (free : Finset Nat) (c : Call) (free' : Finset Nat) : Prop :=
  match c with
  | .acquire none => free = ∅ ∧ free' = ∅
  | .acquire (some n) => IsLeast (free : Set Nat) n ∧ free' = free.erase n
  | .mark cluster true => free' = insert cluster free
  | .mark cluster false => free' = free.erase cluster

/-- The free clusters of the disk. -/
def freeClusters (t : VacancyTable) : Finset Nat :=
  (Finset.range t.diskSize).filter fun n => t.dvtGet n = true

/-- The bits past the last cluster are zeros. -/
structure Trimmed (size : Nat) (t : VacancyTable) : Prop where
  size : t.diskSize = size
  entries : t.diskSize ≤ t.dvtEntries * 32
  tail : ∀ n < t.dvtEntries * 32, t.dvtGet n = true → n < t.diskSize

variable {t' : VacancyTable} {size : Nat}

theorem Trimmed.dvtMark (ht : Trimmed size t) (hcluster : cluster < t.diskSize) (free : Bool) :
    Trimmed size (t.dvtMark cluster free) := by
  refine ⟨ht.size, ht.entries, fun n hn hone => ?_⟩
  rw [dvtGet_dvtMark] at hone
  by_cases heq : n = cluster
  · exact heq ▸ hcluster
  · rw [update_of_ne heq] at hone
    exact ht.tail n hn hone

theorem freeClusters_dvtMark_false (t : VacancyTable) (cluster : Nat) :
    (t.dvtMark cluster false).freeClusters = t.freeClusters.erase cluster := by
  ext n
  simp only [freeClusters, Finset.mem_filter, Finset.mem_range, Finset.mem_erase, dvtGet_dvtMark]
  by_cases heq : n = cluster
  · simp [heq]
  · rw [update_of_ne heq]
    exact ⟨fun h => ⟨heq, h⟩, And.right⟩

theorem freeClusters_dvtMark_true (hcluster : cluster < t.diskSize) :
    (t.dvtMark cluster true).freeClusters = insert cluster t.freeClusters := by
  ext n
  simp only [freeClusters, Finset.mem_filter, Finset.mem_range, Finset.mem_insert, dvtGet_dvtMark]
  by_cases heq : n = cluster
  · rw [heq, update_self]
    exact iff_of_true ⟨hcluster, rfl⟩ (.inl rfl)
  · rw [update_of_ne heq, or_iff_right heq]
    rfl

/-- An acquisition takes the least free cluster, if there is one. -/
theorem Trimmed.acquire (ht : Trimmed size t) (hscan : FindsHighest scan) {result : Option Nat}
    (hacquire : t.dvtAcquireCluster scan = (result, t')) :
    Trimmed size t' ∧ SetStep t.freeClusters (.acquire result) t'.freeClusters := by
  rw [dvtAcquireCluster_eq hscan] at hacquire
  cases hfind : (List.range (t.dvtEntries * 32)).find? t.dvtGet with
  | none =>
      rw [hfind] at hacquire
      cases hacquire
      have hempty : t.freeClusters = ∅ := by
        refine Finset.filter_eq_empty_iff.mpr fun n hn => ?_
        have hlt := Nat.lt_of_lt_of_le (Finset.mem_range.mp hn) ht.entries
        simpa using List.find?_range_eq_none.mp hfind n hlt
      exact ⟨ht, hempty, hempty⟩
  | some n =>
      rw [hfind] at hacquire
      cases hacquire
      obtain ⟨hone, hn, hbefore⟩ := List.find?_range_eq_some.mp hfind
      have hlt := ht.tail n (List.mem_range.mp hn) hone
      refine ⟨ht.dvtMark hlt false, ⟨?_, fun m hm => ?_⟩, freeClusters_dvtMark_false t n⟩
      · exact Finset.mem_filter.mpr ⟨Finset.mem_range.mpr hlt, hone⟩
      · obtain ⟨_, hm⟩ := Finset.mem_filter.mp hm
        refine Nat.le_of_not_lt fun hmn => ?_
        have hzero := hbefore m hmn
        rw [hm] at hzero
        cases hzero

theorem Trimmed.step {c : Call} (ht : Trimmed size t) (hscan : FindsHighest scan)
    (hstep : Step scan t c t') : Trimmed size t' ∧ SetStep t.freeClusters c t'.freeClusters := by
  cases c with
  | acquire result => exact ht.acquire hscan hstep
  | mark cluster free =>
      obtain ⟨hcluster, rfl⟩ := hstep
      refine ⟨ht.dvtMark hcluster free, ?_⟩
      cases free with
      | false => exact freeClusters_dvtMark_false t cluster
      | true => exact freeClusters_dvtMark_true hcluster

/-- At first every cluster of the disk is free. -/
theorem construct_trimmed {numOfClusters : Nat} (hpos : 0 < numOfClusters)
    (krnlspc : Nat → BitVec 32) :
    Trimmed (min numOfClusters maxClusters) (construct numOfClusters krnlspc) ∧
      (construct numOfClusters krnlspc).freeClusters =
        Finset.range (min numOfClusters maxClusters) := by
  obtain ⟨hsize, hentries⟩ := construct_sizes numOfClusters krnlspc
  have hroom : (construct numOfClusters krnlspc).diskSize ≤
      (construct numOfClusters krnlspc).dvtEntries * 32 := by
    have hceil : (construct numOfClusters krnlspc).dvtEntries =
        1 + ((construct numOfClusters krnlspc).diskSize - 1) / 32 := hsize ▸ hentries
    omega
  refine ⟨⟨hsize, hroom, fun n hn hone => ?_⟩, ?_⟩
  · rw [construct_dvtGet hpos krnlspc hn] at hone
    exact of_decide_eq_true hone
  · rw [← hsize]
    refine Finset.filter_true_of_mem fun n hn => ?_
    have hlt := Finset.mem_range.mp hn
    rw [construct_dvtGet hpos krnlspc (Nat.lt_of_lt_of_le hlt hroom)]
    exact decide_eq_true hlt

/-- Whatever is acquired in a run is a cluster of the disk. -/
theorem Trimmed.acquired_lt {calls : List Call} (hscan : FindsHighest scan)
    (hrun : Run (Step scan) t calls t') (ht : Trimmed size t)
    (hn : Call.acquire (some n) ∈ calls) : n < size := by
  induction hrun with
  | nil t => cases hn
  | cons hfirst _ ih =>
      obtain ⟨ht₁, hset⟩ := ht.step hscan hfirst
      obtain rfl | hn := List.mem_cons.mp hn
      · obtain ⟨hrange, _⟩ := Finset.mem_filter.mp hset.1.1
        exact ht.size ▸ Finset.mem_range.mp hrange
      · exact ih ht₁ hn

/-- The table behaves as the set of its free clusters, which are all of the disk at first. -/
theorem vacancy_is_set (hscan : FindsHighest scan) {numOfClusters : Nat} (hpos : 0 < numOfClusters)
    (krnlspc : Nat → BitVec 32) {calls : List Call}
    (hrun : Run (Step scan) (construct numOfClusters krnlspc) calls t) :
    Run SetStep (Finset.range (min numOfClusters maxClusters)) calls t.freeClusters ∧
      (∀ n, n ∈ t.freeClusters ↔ n < min numOfClusters maxClusters ∧ t.dvtGet n = true) ∧
      ∀ n, .acquire (some n) ∈ calls → n < min numOfClusters maxClusters ∧ n ≠ nullCluster := by
  obtain ⟨htrimmed, hall⟩ := construct_trimmed hpos krnlspc
  obtain ⟨ht, hset⟩ := hrun.simulate (Trimmed (min numOfClusters maxClusters)) freeClusters
    (fun t c t' ht hstep => ht.step hscan hstep) htrimmed
  refine ⟨hall ▸ hset, fun n => ?_, fun n hn => ?_⟩
  · rw [freeClusters, Finset.mem_filter, Finset.mem_range, ht.size]
  · have hlt := htrimmed.acquired_lt hscan hrun hn
    refine ⟨hlt, Nat.ne_of_lt (Nat.lt_of_lt_of_le hlt ?_)⟩
    exact Nat.min_le_right ..

theorem findsHighest_log2 : FindsHighest fun word => word.toNat.log2 := by
  intro word hword
  have hne : word.toNat ≠ 0 := fun hzero => hword (BitVec.eq_of_toNat_eq hzero)
  refine ⟨(Nat.log2_lt hne).mpr word.isLt, Nat.testBit_log2 hne, fun bit hbit => ?_⟩
  refine Nat.testBit_lt_two_pow (Nat.lt_of_lt_of_le Nat.lt_log2_self ?_)
  exact Nat.pow_le_pow_right (by decide) hbit

/-- Thirty-three clusters, whose last one has a word of its own: two are acquired, and the
second is given back. -/
theorem vacancy_is_set_partial : ∃ t : VacancyTable,
    Run SetStep (Finset.range 33) [.acquire (some 0), .acquire (some 1), .mark 1 true]
      t.freeClusters ∧ t.dvtEntries = 2 ∧ t.dvtGet 0 = false ∧ t.dvtGet 1 = true := by
  let scan : BitVec 32 → Nat := fun word => word.toNat.log2
  let t₀ := construct 33 fun _ => 0#32
  let t₁ := (t₀.dvtAcquireCluster scan).2
  let t₂ := (t₁.dvtAcquireCluster scan).2
  have hrun : Run (Step scan) t₀ [.acquire (some 0), .acquire (some 1), .mark 1 true]
      (t₂.dvtMark 1 true) := by
    refine .cons (t := t₁) (Prod.ext ?_ rfl) (.cons (t := t₂) (Prod.ext ?_ rfl)
      (.cons ⟨?_, rfl⟩ (.nil _)))
    · decide +kernel
    · decide +kernel
    · decide +kernel
  refine ⟨t₂.dvtMark 1 true, (vacancy_is_set findsHighest_log2 (by decide) _ hrun).1, ?_, ?_, ?_⟩
  · decide +kernel
  · decide +kernel
  · decide +kernel

/-- The bits that user paging keeps are those of the table. -/
structure Holds {D : Type} (t : VacancyTable) (s : UserSpace D) : Prop where
  entries : t.dvtEntries * 32 = s.dvtBits
  bits : ∀ n < s.dvtBits, s.dvt n = t.dvtGet n

theorem Holds.dvtMark {D : Type} {s : UserSpace D} (hholds : Holds t s) (cluster : Nat)
    (free : Bool) : Holds (t.dvtMark cluster free) (s.dvtMark cluster free) where
  entries := hholds.entries
  bits n hn := by
    rw [dvtGet_dvtMark]
    change update s.dvt cluster free n = update t.dvtGet cluster free n
    by_cases heq : n = cluster
    · rw [heq, update_self, update_self]
    · rw [update_of_ne heq, update_of_ne heq, hholds.bits n hn]

/-- User paging acquires the cluster that the table gives. -/
theorem Holds.dvtAcquireCluster {D : Type} {s : UserSpace D} (hscan : FindsHighest scan)
    (hholds : Holds t s) :
    s.dvtAcquireCluster.map Prod.fst = (t.dvtAcquireCluster scan).1 ∧
      ∀ n s', s.dvtAcquireCluster = some (n, s') → Holds (t.dvtAcquireCluster scan).2 s' := by
  have hfind : (List.range s.dvtBits).find? s.dvt =
      (List.range (t.dvtEntries * 32)).find? t.dvtGet := by
    rw [hholds.entries]
    exact List.find?_congr fun n hn => hholds.bits n (List.mem_range.mp hn)
  rw [dvtAcquireCluster_eq hscan, UserSpace.dvtAcquireCluster, hfind]
  cases (List.range (t.dvtEntries * 32)).find? t.dvtGet with
  | none =>
      refine ⟨rfl, fun n s' heq => ?_⟩
      cases heq
  | some n =>
      refine ⟨rfl, fun m s' heq => ?_⟩
      cases heq
      exact hholds.dvtMark n false

/-- The constructor gives user paging the bits of its table. -/
theorem holds_initial {D : Type} {userspcSize numOfClusters : Nat} (hpos : 0 < numOfClusters)
    (krnlspc : Nat → BitVec 32) (userspc disk : Nat → Page) (ot : Nat → Nat) (dice : List Nat) :
    Holds (construct numOfClusters krnlspc)
      (UserSpace.initial (D := D) userspcSize numOfClusters userspc disk ot dice) := by
  obtain ⟨hsize, hentries⟩ := construct_sizes numOfClusters krnlspc
  have hbits : (construct numOfClusters krnlspc).dvtEntries * 32 =
      (UserSpace.initial (D := D) userspcSize numOfClusters userspc disk ot dice).dvtBits :=
    congrArg (· * 32) hentries
  refine ⟨hbits, fun n hn => ?_⟩
  rw [construct_dvtGet hpos krnlspc (hbits ▸ hn), hsize]
  rfl

end VacancyTable

end VirtualMemory
