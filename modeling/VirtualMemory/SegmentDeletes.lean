import VirtualMemory.CreationOrder
import VirtualMemory.SegmentReleases

/-!
# Deleting the segment at an address

`delete_segment` looks for an entry of the segment table with the start page of the address,
of which it takes ten bits, and does not look whether the entry is free. Where the first entry
that it finds is the live one of a segment that starts at the address, and the page tables of
the segment can be worked on, just that segment is removed; where it finds none and there is
none, nothing happens.
-/

namespace VirtualMemory

open Function UserSpace KernelSystem PageTableL2Entry

namespace KernelSystem

/-- A process is on the list of users of a shared segment. -/
def Registered (s : KernelSystem) (h ssegInd : Nat) : Prop :=
  ∃ b sscb, s.ssegBlock ssegInd = .ok (b, sscb) ∧ ∃ user ∈ sscb.users, user.pcb = h

instance (s : KernelSystem) (h ssegInd : Nat) : Decidable (s.Registered h ssegInd) :=
  match hblock : s.ssegBlock ssegInd with
  | .ok (b, sscb) => decidable_of_iff (∃ user ∈ sscb.users, user.pcb = h) (by
      simp [Registered, hblock])
  | .error halt => isFalse (by simp [Registered, hblock])

theorem ssegBlock_congr {s s' : KernelSystem} (hobjects : SameObjects s s') (ssegInd : Nat) :
    s'.ssegBlock ssegInd = s.ssegBlock ssegInd := by
  unfold ssegBlock
  rw [hobjects.ssegVec, hobjects.sscbs]
  cases s.ssegVec.atIndex ssegInd with
  | error e => rfl
  | ok dummy =>
      have hrest := hobjects.pcbs dummy
      simp only [Outcome.ok_bind, pcb]
      cases hp : s.pcbs dummy with
      | none =>
          rw [hp, Option.map_none, Option.map_eq_none_iff] at hrest
          simp [hrest]
      | some p =>
          rw [hp, Option.map_some] at hrest
          obtain ⟨p', hp', heq⟩ := Option.map_eq_some_iff.mp hrest
          have hsscb : p'.sscb = p.sscb := congrArg Prod.snd heq
          simp [hp', hsscb]

theorem Registered.congr {s s' : KernelSystem} {h ssegInd : Nat}
    (hreg : s.Registered h ssegInd) (hobjects : SameObjects s s') : s'.Registered h ssegInd := by
  obtain ⟨b, sscb, hblock, huser⟩ := hreg
  exact ⟨b, sscb, (ssegBlock_congr hobjects ssegInd).trans hblock, huser⟩

theorem dropUser_registered {s : KernelSystem} {h ssegInd : Nat}
    (hreg : s.Registered h ssegInd) :
    ∃ index b sscb, s.dropUser h ssegInd = .ok (index, s.setSscb b sscb) := by
  obtain ⟨b, sscb, hblock, user, huser, hpcb⟩ := hreg
  unfold dropUser
  rw [hblock, Outcome.ok_bind]
  dsimp only
  split
  · rename_i hnone
    exact absurd hpcb (by simpa using List.find?_eq_none.mp hnone user huser)
  · exact ⟨_, _, _, rfl⟩

end KernelSystem

namespace Working

variable {g : Layout} {s : KernelSystem} {h m k f startAddr i : Nat} {released : Bool}

/-- One shared page of the segment. The first one takes the process off the list of users. -/
theorem deletePage_shared (hwork : Working g h m s)
    (hk : g.place (.table h (slotOf startAddr)) = .frame k)
    (hf : g.place (.table h (slotOf (pageAddr startAddr i))) = .frame f)
    (hinseg : (g.desc (pageOf h (pageAddr startAddr i))).getInseg = true)
    (hshared : (g.desc (pageOf h (pageAddr startAddr i))).getShared = true)
    (hreg : released = true ∨
      s.Registered h (g.desc (pageOf h (pageAddr startAddr i))).ssegInd.toNat) :
    ∃ s', deletePage h startAddr true (released, s) i = .ok (true, s') ∧
      Working (cleared g (pageOf h (pageAddr startAddr i))) h m s' := by
  obtain ⟨hinv₁, hlock, hobjects⟩ := hwork.inv.ksLockPage_inv k
  have hwork₁ := hwork.carry hinv₁ hlock id
  have hread : (s.ksLockPage k).mem ⟨f, cellOf (pageAddr startAddr i)⟩ =
      g.desc (pageOf h (pageAddr startAddr i)) := hwork₁.inv.mem_pageOf hf
  have hused : (s.ptl1 ⟨m, slotCell (slotOf (pageAddr startAddr i))⟩).status ≠
      PageTableL1Entry.statusUnused := by
    have hagree := hwork.inv.agrees hwork.master.1 (slotOf (pageAddr startAddr i))
    rw [hf] at hagree
    rw [hagree.1]
    decide
  have hlast : ∀ {s₂}, KernelInv (cleared g (pageOf h (pageAddr startAddr i))) noHand noHand s₂ →
      Carried (fun _ => False) (fun _ => False) (· = pageOf h (pageAddr startAddr i)) g
        (s.ksLockPage k) (cleared g (pageOf h (pageAddr startAddr i))) s₂ →
      Working (cleared g (pageOf h (pageAddr startAddr i))) h m (s₂.pageUnlock k) := by
    intro s₂ hinv₂ hcarried₂
    have hwork₂ := hwork₁.carry hinv₂ hcarried₂ id
    obtain ⟨hinv₃, hunlock, -⟩ := hinv₂.pageUnlock_inv (t := .table h (slotOf startAddr)) hk
    refine hwork₂.carry hinv₃ hunlock ?_
    rintro (heq | htable)
    · cases heq
    · exact KTable.master_not_table h htable
  unfold deletePage
  simp only [hwork.inv.accessPtl1_eq hwork.master.1, deref, Outcome.ok_bind, if_neg hused,
    hwork.inv.pageTableLock_present hwork.master.1 hk,
    hwork₁.inv.accessPtl2_eq hwork₁.master.1 hf, derefPtl2, deleteEntry, hread, hinseg, hshared,
    Bool.not_true, Bool.false_eq_true, if_false, if_true, Bool.and_true]
  cases released with
  | true =>
      obtain ⟨hinv₂, hcarried₂⟩ := hwork₁.inv.clearEntry hf hshared
      exact ⟨_, rfl, hlast hinv₂ hcarried₂⟩
  | false =>
      obtain ⟨index, b, sscb, hdrop⟩ := dropUser_registered
        ((hreg.resolve_left Bool.false_ne_true).congr hobjects)
      have hread' : ((s.ksLockPage k).setSscb b sscb).mem ⟨f, cellOf (pageAddr startAddr i)⟩ =
          g.desc (pageOf h (pageAddr startAddr i)) := hread
      obtain ⟨hinv₂, hcarried₂⟩ := (hwork₁.inv.setSscb b sscb).clearEntry hf hshared
      simp only [Bool.not_false, if_true, hdrop, Outcome.ok_bind, hread']
      exact ⟨_, rfl, hlast hinv₂ ((KernelInv.carried_setSscb g _ b sscb).carried.trans hcarried₂)⟩

end Working

/-- The pages of a range are pages of a shared segment. -/
def SharedRange (g : Layout) (h startAddr size : Nat) : Prop :=
  ∀ i < size, (g.desc (pageOf h (pageAddr startAddr i))).getInseg = true ∧
    (g.desc (pageOf h (pageAddr startAddr i))).getShared = true

/-- With every page table in memory the loop over shared pages comes to its end. -/
theorem Clearing.finish {g₀ : Layout} {h m startAddr size : Nat} (hsize : size ≤ 16384)
    (hpages : SharedRange g₀ h startAddr size)
    (htables : ∀ i < size, ∃ f, g₀.place (.table h (slotOf (pageAddr startAddr i))) = .frame f) :
    ∀ {rest done : List Nat} {g : Layout} {s : KernelSystem} {released : Bool},
      Clearing g₀ h m startAddr done g s → List.range size = done ++ rest →
      (∀ i ∈ rest.head?, released = true ∨
        s.Registered h (g₀.desc (pageOf h (pageAddr startAddr i))).ssegInd.toNat) →
      ∃ g' r, rest.foldlM (deletePage h startAddr true) (released, s) = .ok r ∧
        Clearing g₀ h m startAddr (List.range size) g' r.2
  | [], done, g, s, released, hclearing, hall, _ => by
      rw [List.append_nil] at hall
      exact ⟨g, (released, s), rfl, hall ▸ hclearing⟩
  | i :: rest, done, g, s, released, hclearing, hall, hreg => by
      obtain ⟨hi, hnew⟩ := Removing.new_page h startAddr hsize hall
      obtain ⟨f, hf⟩ := htables i hi
      obtain ⟨k, hk⟩ := htables 0 (by omega)
      rw [slotOf_pageAddr_zero] at hk
      have hdesc := hclearing.others _ hnew
      obtain ⟨s₁, hdelete, hwork₁⟩ := hclearing.working.deletePage_shared
        (by rw [hclearing.place, hk]) (by rw [hclearing.place, hf])
        (by rw [hdesc, (hpages i hi).1]) (by rw [hdesc, (hpages i hi).2])
        (by rw [hdesc]; exact hreg i rfl)
      obtain ⟨g', r, hloop, hcleared⟩ := Clearing.finish hsize hpages htables
        (hclearing.next hwork₁ hnew) (by simpa using hall) (fun _ _ => .inl rfl)
      refine ⟨g', r, ?_, hcleared⟩
      rw [List.foldlM_cons, hdelete, Outcome.ok_bind, hloop]

/-- The pages of an entry are pages of a segment of its kind. -/
def EntryMapped (g : Layout) (h : Nat) (e : SegTableEntry) : Prop :=
  ∀ i < e.getLength, (g.desc (entryPage e h i)).getInseg = true ∧
    (g.desc (entryPage e h i)).getShared = decide (e.getKind = .occShared)

namespace Working

variable {g : Layout} {s : KernelSystem} {h m : Nat} {n : Fin 192}

/-- The pages of a segment can be cleared when its page tables are in memory and, if it is shared,
its process is on the list of users. -/
theorem clears (hwork : Working g h m s) (hmapped : EntryMapped g h (g.segment h n))
    (htables : ∀ i < (g.segment h n).getLength,
      ∃ f, g.place (.table h (entryPage (g.segment h n) h i).slot) = .frame f)
    (hreg : 0 < (g.segment h n).getLength → (g.segment h n).getKind = .occShared →
      s.Registered h (g.desc (entryPage (g.segment h n) h 0)).ssegInd.toNat) :
    ∃ g' r, (List.range (g.segment h n).getLength).foldlM
        (deletePage h ((g.segment h n).start * pageSize) true) (false, s) = .ok r ∧
      Clearing g h m ((g.segment h n).start * pageSize)
        (List.range (g.segment h n).getLength) g' r.2 := by
  by_cases hkind : (g.segment h n).getKind = .occShared
  · have hpages : SharedRange g h ((g.segment h n).start * pageSize)
        (g.segment h n).getLength := fun i hi => by
      obtain ⟨hinseg, hshared⟩ := hmapped i hi
      exact ⟨hinseg, hshared.trans (decide_eq_true hkind)⟩
    refine Clearing.finish (segment_size _) hpages htables (.start hwork)
      (List.nil_append _).symm fun i hi => ?_
    cases hlen : (g.segment h n).getLength with
    | zero => simp [hlen] at hi
    | succ size =>
        rw [hlen, List.range_succ_eq_map] at hi
        obtain rfl : 0 = i := Option.some.inj hi
        exact .inr (hreg (by rw [hlen]; exact Nat.succ_pos size) hkind)
  · have hprivate : PrivateRange g h ((g.segment h n).start * pageSize)
        (g.segment h n).getLength := fun i hi => by
      obtain ⟨hinseg, hshared⟩ := hmapped i hi
      exact ⟨hinseg, hshared.trans (decide_eq_false hkind)⟩
    obtain ⟨g', s', hloop, hremoving⟩ := Removing.finish true false (segment_size _) hprivate
      htables (.start hwork) (List.nil_append _).symm
    exact ⟨g', (false, s'), hloop, hremoving.toClearing⟩

/-- Then the segment is removed, with no other descriptor touched. -/
theorem deletes (hwork : Working g h m s) (hmapped : EntryMapped g h (g.segment h n))
    (htables : ∀ i < (g.segment h n).getLength,
      ∃ f, g.place (.table h (entryPage (g.segment h n) h i).slot) = .frame f)
    (hreg : 0 < (g.segment h n).getLength → (g.segment h n).getKind = .occShared →
      s.Registered h (g.desc (entryPage (g.segment h n) h 0)).ssegInd.toNat) :
    ∃ g' s', s.deleteSegmentInd h n true = .ok s' ∧ KernelInv g' noHand noHand s' ∧
      g'.place = g.place ∧
      ∀ v, (∀ i < (g.segment h n).getLength, v ≠ entryPage (g.segment h n) h i) →
        g'.desc v = g.desc v := by
  obtain ⟨g₁, ⟨released, s₁⟩, hloop, hcleared⟩ := hwork.clears hmapped htables hreg
  obtain ⟨s', hdelete, hwork', -⟩ := hwork.deleteSegmentInd_end hloop hcleared.working
  refine ⟨_, s', hdelete, hwork'.inv, hcleared.place, fun v hv => ?_⟩
  rw [Layout.setSegment_desc]
  exact hcleared.others v fun i hi => hv i (List.mem_range.mp hi)

end Working

namespace KernelSystem

/-- Entry `n` is that of a live segment which starts at the page of the address. -/
def StartsAt (s : KernelSystem) (h startAddr : Nat) (n : Fin 192) (e : SegTableEntry) : Prop :=
  s.segmentEntry h n = some e ∧ e.getKind ≠ .free ∧ startAddr % pageSize = 0 ∧
    e.start = startAddr / 2 ^ 10 % 2 ^ 14

instance (s : KernelSystem) (h startAddr : Nat) (n : Fin 192) (e : SegTableEntry) :
    Decidable (s.StartsAt h startAddr n e) :=
  inferInstanceAs (Decidable (_ ∧ _))

/-- Entry `n`, of any kind, is the first one with the start page that is looked for. -/
def Finds (s : KernelSystem) (h startAddr : Nat) (n : Fin 192) (e : SegTableEntry) : Prop :=
  s.segmentEntry h n = some e ∧ e.start = startAddr / 2 ^ 10 % 2 ^ 10 ∧
    ∀ n' < n, ∀ e' ∈ s.segmentEntry h n', e'.start ≠ startAddr / 2 ^ 10 % 2 ^ 10

instance (s : KernelSystem) (h startAddr : Nat) (n : Fin 192) (e : SegTableEntry) :
    Decidable (s.Finds h startAddr n e) :=
  inferInstanceAs (Decidable (_ ∧ _))

/-- The state of `delete_segment` once the page table of the first page is in memory. -/
def broughtIn (s : KernelSystem) (h : Nat) (e : SegTableEntry) : Except Halt KernelSystem := do
  let (_, s) ← s.masterTableLock h
  s.firstTableIn h e

/-- The page tables of a segment can be worked on, once the master table is locked, and the
process of a mapping is on the list of users. -/
def Workable (s : KernelSystem) (h : Nat) (e : SegTableEntry) : Prop :=
  s.OthersStay h e ∧
    (e.getKind = .occShared → s.Registered h (s.entry (entryPage e h 0)).ssegInd.toNat)

instance (s : KernelSystem) (h : Nat) (e : SegTableEntry) : Decidable (s.Workable h e) :=
  inferInstanceAs (Decidable (_ ∧ _))

/-- A segment can be removed. -/
def Removable (s : KernelSystem) (h : Nat) (e : SegTableEntry) : Prop :=
  (s.broughtIn h e).isOk = true ∧ ∃ mt s₀, s.masterTableLock h = .ok (mt, s₀) ∧ s₀.Workable h e

instance (s : KernelSystem) (h : Nat) (e : SegTableEntry) : Decidable (s.Removable h e) :=
  match hlock : s.masterTableLock h with
  | .ok (mt, s₀) => decidable_of_iff ((s.broughtIn h e).isOk = true ∧ s₀.Workable h e) (by
      simp [Removable, hlock])
  | .error halt => isFalse (by simp [Removable, hlock])

/-- The search is not misled: a segment at the address starts below page 1024, and the first
entry with the start page is live, starts at the address and can be removed. -/
def FindsRight (s : KernelSystem) (h startAddr : Nat) : Prop :=
  ∀ n, ∀ e ∈ s.segmentEntry h n,
    (s.StartsAt h startAddr n e → startAddr / 2 ^ 10 % 2 ^ 14 < 2 ^ 10) ∧
      (startAddr % pageSize = 0 → s.count h ≠ some 0 → s.Finds h startAddr n e →
        s.StartsAt h startAddr n e ∧ s.Removable h e)

instance (s : KernelSystem) (h startAddr : Nat) : Decidable (s.FindsRight h startAddr) :=
  inferInstanceAs (Decidable (∀ n, ∀ e ∈ s.segmentEntry h n, _))

/-- Nothing that a segment table, a count or a descriptor says has changed. -/
structure Untouched (s s' : KernelSystem) : Prop where
  entries : ∀ h n, s'.segmentEntry h n = s.segmentEntry h n
  count : ∀ h, s'.count h = s.count h
  descriptors : ∀ v, s'.descriptor v = s.descriptor v

/-- The segment of entry `n` is deleted and nothing else. Whatever is evicted for the page table
of its first page, which is in memory in `s₁`, no page is disturbed by that. -/
structure OnlyDeletes (s : KernelSystem) (h : Nat) (n : Fin 192) (e : SegTableEntry)
    (s₁ s' : KernelSystem) : Prop where
  first : s.broughtIn h e = .ok s₁
  paged : ∀ v, s.HasMaster v.proc → s₁.HasMaster v.proc → s.Undisturbed s₁ v
  entry : s'.segmentEntry h n = some (e.setKind .free)
  pages : ∀ i < e.getLength, ¬ s'.InSegment (entryPage e h i)
  count : ∃ count, s.count h = some (count + 1) ∧ s'.count h = some count
  entries : ∀ h' n', s.HasMaster h' → s₁.HasMaster h' → (h' = h → n' ≠ n) →
    s'.segmentEntry h' n' = s.segmentEntry h' n'
  others : ∀ v, s₁.HasMaster v.proc → (∀ i < e.getLength, v ≠ entryPage e h i) →
    s'.entry v = s₁.entry v

/-- `delete_segment` does what it should: it deletes the live segment that starts at the address,
or refuses where there is none. -/
def DeletesRight (s : KernelSystem) (h startAddr : Nat) : Prop :=
  (∃ n e s₁ s', s.StartsAt h startAddr n e ∧ s.deleteSegment h startAddr = .ok (.ok, s') ∧
      s.OnlyDeletes h n e s₁ s') ∨
    (∀ n e, ¬ s.StartsAt h startAddr n e) ∧
      ∃ s', s.deleteSegment h startAddr = .ok (.trap, s') ∧ s.Untouched s'

end KernelSystem

namespace KernelInv

variable {g : Layout} {s : KernelSystem} {h m startAddr : Nat} {n : Fin 192}

/-- What the search of `delete_segment` looks at, with the master table locked. -/
theorem search_eq (hinv : KernelInv g noHand noHand s) (hm : g.place (.master h) = .frame m)
    {p : KernelProcess} (hat : p.At m) (n : Fin 192) :
    (s.ksLockPage m).ste (p.stPtr.index n) = g.segment h n :=
  (congrArg s.ste (index_ste hat n)).trans (hinv.ste_eq hm)

theorem finds_iff (hinv : KernelInv g noHand noHand s) (hm : g.place (.master h) = .frame m)
    {e : SegTableEntry} : s.Finds h startAddr n e ↔ e = g.segment h n ∧
      (g.segment h n).start = startAddr / 2 ^ 10 % 2 ^ 10 ∧
        ∀ n' < n, (g.segment h n').start ≠ startAddr / 2 ^ 10 % 2 ^ 10 := by
  simp only [Finds, hinv.segmentEntry_eq (not_noMaster hm), Option.mem_def, Option.some.injEq,
    forall_eq']
  constructor
  · rintro ⟨rfl, hrest⟩
    exact ⟨rfl, hrest⟩
  · rintro ⟨rfl, hrest⟩
    exact ⟨rfl, hrest⟩

/-- The search finds nothing, or is not made: nothing but a lock is touched. -/
theorem deleteSegment_refuses (hinv : KernelInv g noHand noHand s) (hsound : g.Sound)
    (hm : g.place (.master h) = .frame m)
    (hnone : s.count h = some 0 ∨ startAddr % pageSize ≠ 0 ∨ ∀ n e, ¬ s.Finds h startAddr n e) :
    ∃ s', s.deleteSegment h startAddr = .ok (.trap, s') ∧ s.Untouched s' ∧
      KernelInv g noHand noHand s' := by
  obtain ⟨p, hp, hpcb, hat⟩ := hinv.pcb_ok hm
  have hp' : (s.ksLockPage m).pcb h = .ok p := hp
  have hcount : s.count h = some p.segCount := by
    rw [KernelSystem.count, hpcb]
    rfl
  unfold deleteSegment
  simp only [hp, Outcome.ok_bind]
  split
  · exact ⟨s, rfl, ⟨fun _ _ => rfl, fun _ => rfl, fun _ => rfl⟩, hinv⟩
  · rename_i hargs
    rw [not_or, not_not] at hargs
    rw [hcount, Option.some.injEq] at hnone
    have hunfound := (hnone.resolve_left hargs.1).resolve_left (by simp [hargs.2])
    simp only [hinv.masterTableLock_ok hm, Outcome.ok_bind, hp']
    split
    · obtain ⟨hwork, -, -⟩ := hinv.working hsound hm
      refine ⟨_, rfl, ⟨fun h' n => ?_, fun h' => count_pageUnlock m, fun v => ?_⟩,
        hwork.unlocked.1⟩
      · unfold pageUnlock
        split <;> rfl
      · exact descriptor_pageUnlock ..
    · rename_i entry hfind
      obtain ⟨hentry, hlt, hfirst⟩ := List.find?_range_eq_some.mp hfind
      have hlt : entry < 192 := List.mem_range.mp hlt
      refine absurd ((hinv.finds_iff hm (n := ⟨entry, hlt⟩)).mpr ⟨rfl, ?_, fun n' hn' => ?_⟩)
        (hunfound _ _)
      · rw [← hinv.search_eq hm hat]
        exact of_decide_eq_true hentry
      · rw [← hinv.search_eq hm hat]
        simpa using hfirst n' hn'

/-- The first entry with the start page is removed. -/
theorem deleteSegment_found {e : SegTableEntry} (hinv : KernelInv g noHand noHand s)
    (hm : g.place (.master h) = .frame m) (hcount : s.count h ≠ some 0)
    (haligned : startAddr % pageSize = 0) (hfinds : s.Finds h startAddr n e) :
    s.deleteSegment h startAddr = (do
      let s₁ ← (s.ksLockPage m).deleteSegmentInd h n true
      .ok (.ok, s₁.pageUnlock m)) := by
  obtain ⟨p, hp, hpcb, hat⟩ := hinv.pcb_ok hm
  have hp' : (s.ksLockPage m).pcb h = .ok p := hp
  obtain ⟨-, hstart, hfirst⟩ := (hinv.finds_iff hm).mp hfinds
  have hsegs : p.segCount ≠ 0 := fun hzero => hcount (by simp [KernelSystem.count, hpcb, hzero])
  have hfind : (List.range maxSegments).find? (fun i =>
      decide (((s.ksLockPage m).ste (p.stPtr.index i)).start =
        startAddr / 2 ^ 10 % 2 ^ 10)) = some n.val := by
    refine List.find?_range_eq_some.mpr ⟨?_, List.mem_range.mpr n.isLt, fun i hi => ?_⟩
    · rw [hinv.search_eq hm hat]
      exact decide_eq_true hstart
    · have hother := hfirst ⟨i, hi.trans n.isLt⟩ hi
      rw [← hinv.search_eq hm hat] at hother
      simpa using hother
  unfold deleteSegment
  simp only [hp, Outcome.ok_bind, hsegs, haligned, ne_eq, not_true_eq_false, or_self, if_false,
    hinv.masterTableLock_ok hm, hp', hfind]

/-- A segment that the search finds and that can be removed is deleted, and nothing else. -/
theorem deleteSegment_deletes {startAddr : Nat} {e : SegTableEntry}
    (hinv : KernelInv g noHand noHand s) (hsound : g.Sound) (hm : g.place (.master h) = .frame m)
    (hmapped : EntryMapped g h (g.segment h n)) {count : Nat}
    (hcount : s.count h = some (count + 1)) (hcount_lt : count < 2 ^ 32 - 1)
    (haligned : startAddr % pageSize = 0) (hfinds : s.Finds h startAddr n e)
    (hremovable : s.Removable h e) :
    ∃ g' s₁ s', s.deleteSegment h startAddr = .ok (.ok, s') ∧ s.OnlyDeletes h n e s₁ s' ∧
      s'.count h = some count ∧ KernelInv g' noHand noHand s' ∧
      g'.place (.master h) = .frame m ∧ Working.Removed g h n g' ∧
      Carried (Released h) (· = h) (InRange h ((g.segment h n).start * pageSize)
        (g.segment h n).getLength) g s g' s' := by
  obtain ⟨rfl, -, -⟩ := (hinv.finds_iff hm).mp hfinds
  obtain ⟨hwork, hlocked, hobjects⟩ := hinv.working hsound hm
  obtain ⟨hbrought, mt, s₀, hlock, hstay, husers⟩ := hremovable
  have hfirst : s.broughtIn h (g.segment h n) =
      (s.ksLockPage m).firstTableIn h (g.segment h n) := by
    rw [broughtIn, hinv.masterTableLock_ok hm, Outcome.ok_bind]
  rw [hinv.masterTableLock_ok hm] at hlock
  cases hlock
  obtain ⟨s₁, hs₁⟩ : ∃ s₁, s.broughtIn h (g.segment h n) = .ok s₁ := by
    cases hb : s.broughtIn h (g.segment h n) with
    | ok s₁ => exact ⟨s₁, rfl⟩
    | error halt => simp [hb, Except.isOk, Except.toBool] at hbrought
  -- The page table of the first page is brought in.
  obtain ⟨g₁, hwork₁, hpaged, hobjects₁, hsame, htables⟩ :=
    hwork.firstTableIn_brought true (hfirst.symm.trans hs₁) hstay
  have hsegment : ∀ h' n', g₁.segment h' n' = g.segment h' n' := fun h' n' =>
    congrArg PageTableL2Entry.toSeg (hpaged.segs h' n' id)
  have hmapped₁ : EntryMapped g₁ h (g₁.segment h n) := by
    rw [hsegment]
    intro i hi
    have hrights := (hpaged.pages (entryPage (g.segment h n) h i) id).sameRights
    exact ⟨hrights.inseg.trans (hmapped i hi).1, hrights.shared.trans (hmapped i hi).2⟩
  have hreg : 0 < (g₁.segment h n).getLength → (g₁.segment h n).getKind = .occShared →
      s₁.Registered h (g₁.desc (entryPage (g₁.segment h n) h 0)).ssegInd.toNat := by
    rw [hsegment]
    intro hpos hkind
    have hshared := (hmapped 0 hpos).2.trans (decide_eq_true hkind)
    have hread : (s.ksLockPage m).entry (entryPage (g.segment h n) h 0) =
        g.desc (entryPage (g.segment h n) h 0) := hwork.inv.entry_eq hwork.sound hm
    rw [desc_of_shared (hpaged.pages _ id) hshared, ← hread]
    exact (husers hkind).congr hobjects₁
  -- The segment is removed, and the master table is unlocked.
  obtain ⟨g₂, s₂, hdelete, hinv₂, hplace₂, hothers⟩ :=
    hwork₁.deletes hmapped₁ (by rwa [hsegment]) hreg
  obtain ⟨g₃, hwork₃, hcarried₃, -, hremoved⟩ := hwork₁.deleteSegmentInd_inv hdelete
  obtain ⟨hinv₂', -, -⟩ := hinv₂.pageUnlock_inv (t := .master h)
    (by rw [hplace₂, hwork₁.master.1])
  obtain ⟨hinv₃, hunlock, -⟩ := hwork₃.unlocked
  have hdelete₀ : (s.ksLockPage m).deleteSegmentInd h n true = .ok s₂ := hsame.trans hdelete
  have hcount' : (s₂.pageUnlock m).count h = some count := by
    rw [count_pageUnlock, deleteSegmentInd_count hdelete₀,
      show (s.ksLockPage m).count h = some (count + 1) from hcount, Option.map_some,
      show count + 1 + (2 ^ 32 - 1) = count + 2 ^ 32 by omega, Nat.add_mod_right,
      Nat.mod_eq_of_lt (by omega)]
  have hentry : ∀ n', g₃.segment h n' =
      if n' = n then (g.segment h n).setKind .free else g.segment h n' := by
    intro n'
    rw [hremoved.entry, hsegment, hsegment]
  rw [hsegment] at hcarried₃
  refine ⟨g₃, s₁, s₂.pageUnlock m, ?_, ⟨hs₁, ?_, ?_, ?_, ⟨count, hcount, hcount'⟩, ?_, ?_⟩, hcount',
    hinv₃, hwork₃.master.1, ⟨?_, ?_, hentry⟩, ?_⟩
  · rw [hinv.deleteSegment_found hm (by simp [hcount]) haligned hfinds, hdelete₀]
    rfl
  · intro v hv hv₁
    obtain ⟨hrights, hcontent, hmapping⟩ := hwork.undisturbed hwork₁ hpaged hv hv₁
    exact ⟨hrights, hcontent, hmapping⟩
  · rw [hinv₃.segmentEntry_eq (not_noMaster hwork₃.master.1), hentry, if_pos rfl]
  · intro i hi hinseg
    rw [hinv₃.inSegment_iff hwork₃.sound hwork₃.master.1, hremoved.pages _ ⟨i, ?_, ?_⟩] at hinseg
    · cases hinseg
    · rwa [hsegment]
    · rw [hsegment]
      rfl
  · intro h' n' hh' hh₁ hne
    obtain ⟨m', hm'⟩ := hinv.hasMaster_iff.mp hh'
    obtain ⟨m₁, hm₁⟩ := hwork₁.inv.hasMaster_iff.mp hh₁
    have hh₃ : (s₂.pageUnlock m).HasMaster h' :=
      hinv₂'.hasMaster_iff.mpr ⟨m₁, by rw [hplace₂, hm₁]⟩
    obtain ⟨m₃, hm₃⟩ := hinv₃.hasMaster_iff.mp hh₃
    rw [hinv₃.segmentEntry_eq (not_noMaster hm₃), hinv.segmentEntry_eq (not_noMaster hm')]
    by_cases hh : h' = h
    · rw [hh, hentry, if_neg (hne hh)]
    · exact congrArg some ((congrArg PageTableL2Entry.toSeg (hcarried₃.segs h' n' hh)).trans
        (hsegment h' n'))
  · intro v hv hrange
    obtain ⟨m₁, hm₁⟩ := hwork₁.inv.hasMaster_iff.mp hv
    have hsound₂ : g₂.Sound := fun h' slot f hf => by
      rw [hplace₂] at hf ⊢
      exact hwork₁.sound h' slot f hf
    rw [hinv₂'.entry_eq hsound₂ (by rw [hplace₂, hm₁]), hwork₁.inv.entry_eq hwork₁.sound hm₁]
    exact hothers v (by rwa [hsegment])
  · have hpages := hremoved.pages
    rwa [hsegment] at hpages
  · have hunshared := hremoved.unshared
    rwa [hsegment] at hunshared
  · exact hlocked.carried.trans ((hpaged.carried).trans
      ((hcarried₃.mono (fun _ => .inr) (fun _ => id) (fun _ => id)).trans
        (hunlock.mono (fun _ => id) nofun nofun)))

end KernelInv

namespace Layout

variable {g g' : Layout} {h : Nat} {n : Fin 192}

theorem liveCount_le (g : Layout) (h : Nat) : g.liveCount h ≤ 192 :=
  (Finset.card_filter_le _ _).trans_eq (Finset.card_fin 192)

theorem liveCount_pos (hlive : (g.segment h n).getKind ≠ .free) : 0 < g.liveCount h :=
  Finset.card_pos.mpr ⟨n, by simpa using hlive⟩

theorem liveCount_removed (hremoved : Working.Removed g h n g')
    (hlive : (g.segment h n).getKind ≠ .free) : g'.liveCount h + 1 = g.liveCount h := by
  have hsame : (Finset.univ.filter fun n' => (g.segment h n').getKind ≠ .free) =
      insert n (Finset.univ.filter fun n' => (g'.segment h n').getKind ≠ .free) := by
    ext n'
    simp only [Finset.mem_filter, Finset.mem_univ, true_and, Finset.mem_insert, hremoved.entry]
    split
    · rename_i hn
      simp [hn, hlive]
    · rename_i hn
      simp [hn]
  rw [liveCount, liveCount, hsame,
    Finset.card_insert_of_notMem (by simp [hremoved.entry, SegTableEntry.getKind_setKind])]

theorem liveCount_congr (hsame : ∀ n, g'.segment h n = g.segment h n) :
    g'.liveCount h = g.liveCount h := by
  simp only [liveCount, hsame]

end Layout

/-- A process at work on its segments, between two calls: their ranges are apart, their pages are
mapped, and they are counted. -/
structure Segmented (g : Layout) (h m : Nat) (s : KernelSystem) : Prop extends
    Ranged g h m s where
  mapped : ∀ n, (g.segment h n).getKind ≠ .free → EntryMapped g h (g.segment h n)
  counted : s.count h = some (g.liveCount h)

/-- The pages of an entry stay mapped where their descriptors keep the rights. -/
theorem EntryMapped.kept {g g' : Layout} {h : Nat} {e : SegTableEntry}
    (hmapped : EntryMapped g h e)
    (hrights : ∀ i < e.getLength,
      SameRights (g.desc (entryPage e h i)) (g'.desc (entryPage e h i))) :
    EntryMapped g' h e := fun i hi =>
  ⟨(hrights i hi).inseg.trans (hmapped i hi).1, (hrights i hi).shared.trans (hmapped i hi).2⟩

namespace Segmented

variable {g g' : Layout} {s s' : KernelSystem} {h m startAddr size ordinal : Nat}
  {kind : KindEnum} {n : Fin 192}

/-- A new process. -/
theorem start {before start : KernelSystem} (hcons : before.Consistent)
    (hcreate : before.createProcess = .ok (h, start)) : ∃ g m, Segmented g h m start := by
  obtain ⟨g, m, hranged, hcount, hlive, hmem, -⟩ := Created.start hcons hcreate
  refine ⟨g, m, hranged, fun n hkind => ?_, by rw [hcount, hlive]⟩
  obtain ⟨r, hr, -⟩ := hmem n hkind
  cases hr

/-- A call that leaves the segments of the process as they are. -/
theorem keep (hsegmented : Segmented g h m s) (hranged : Ranged g' h m s')
    (hsegs : ∀ n, g'.segment h n = g.segment h n)
    (hrights : ∀ v, v.proc = h → SameRights (g.desc v) (g'.desc v))
    (hcount : s'.count h = s.count h) : Segmented g' h m s' := by
  refine ⟨hranged, fun n hkind => ?_, ?_⟩
  · rw [hsegs] at hkind ⊢
    exact (hsegmented.mapped n hkind).kept fun i _ => hrights _ rfl
  · rw [hcount, hsegmented.counted, Layout.liveCount_congr hsegs]

/-- A call that adds a segment on pages that were in none. -/
theorem create (hsegmented : Segmented g h m s) (hranged : Ranged g' h m s')
    (hrecordable : NewRange.Recordable ⟨h, ordinal, startAddr, size⟩) (hlive : kind ≠ .free)
    (hclear : ∀ v, InRange h startAddr size v → (g.desc v).getInseg = false)
    (hnew : NewSegment g h ordinal startAddr size kind g')
    (hpages : ∀ i < size, (g'.desc (pageOf h (pageAddr startAddr i))).getInseg = true ∧
      (g'.desc (pageOf h (pageAddr startAddr i))).getShared = decide (kind = .occShared))
    (hrights : ∀ v, v.proc = h → ¬ InRange h startAddr size v → SameRights (g.desc v) (g'.desc v))
    (hcount : s'.count h = (s.count h).map (· + 1)) : Segmented g' h m s' := by
  refine ⟨hranged, fun n hkind => ?_, ?_⟩
  · obtain ⟨n₀, -, hentry⟩ := hnew.entry
    rw [hentry n] at hkind ⊢
    by_cases hn : n = n₀
    · rw [if_pos hn]
      intro i hi
      obtain ⟨hordinal, -, hsize⟩ := hrecordable
      have hsame : entryPage (Working.recorded (g.segment h n₀) ordinal size kind) h i =
          pageOf h (pageAddr startAddr i) := by
        refine LPage.eq_of_number rfl ?_
        rw [number_entryPage, Working.start_recorded, number_pageAddr]
        dsimp only at hordinal
        omega
      rw [Working.getLength_recorded] at hi
      rw [hsame, Working.getKind_recorded]
      exact hpages i (hi.trans_le (Nat.mod_le _ _))
    · rw [if_neg hn] at hkind ⊢
      refine (hsegmented.mapped n hkind).kept fun i hi => hrights _ rfl fun hrange => ?_
      have hin := (hsegmented.mapped n hkind i hi).1
      rw [hclear _ hrange] at hin
      cases hin
  · rw [hcount, hsegmented.counted, Layout.liveCount_new hnew hlive]
    rfl

/-- A call that removes a segment. -/
theorem remove (hsegmented : Segmented g h m s) (hinv : KernelInv g' noHand noHand s')
    (hsound : g'.Sound) (hm : g'.place (.master h) = .frame m)
    (hlive : (g.segment h n).getKind ≠ .free) (hremoved : Working.Removed g h n g')
    (hrights : ∀ v, v.proc = h → ¬ InRange h ((g.segment h n).start * pageSize)
      (g.segment h n).getLength v → SameRights (g.desc v) (g'.desc v)) {count : Nat}
    (hbefore : s.count h = some (count + 1)) (hafter : s'.count h = some count) :
    Segmented g' h m s' := by
  have hranges := hsegmented.ranges.remove hremoved hrights
  refine ⟨⟨hinv, hsound, hm, hranges⟩, fun n' hkind => ?_, ?_⟩
  · rw [hremoved.entry] at hkind ⊢
    split at hkind
    · rw [SegTableEntry.getKind_setKind] at hkind
      exact absurd rfl hkind
    · rename_i hn
      rw [if_neg hn]
      refine (hsegmented.mapped n' hkind).kept fun i hi => hrights _ rfl ?_
      rintro ⟨j, hj, heq⟩
      have hnumber : (entryPage (g.segment h n') h i).number =
          (entryPage (g.segment h n) h j).number := congrArg LPage.number heq
      rw [number_entryPage, number_entryPage] at hnumber
      have hbound := hsegmented.ranges.bound n hlive
      have hbound' := hsegmented.ranges.bound n' hkind
      have hapart := hsegmented.ranges.apart n' n hn hkind hlive
      omega
  · have hone := Layout.liveCount_removed hremoved hlive
    rw [hsegmented.counted, Option.some.injEq] at hbefore
    rw [hafter]
    congr 1
    omega

/-- Where a segment starts at the address the search is made, and finds something. -/
theorem found (hsegmented : Segmented g h m s) {e : SegTableEntry}
    (hstarts : s.StartsAt h startAddr n e) (hlow : startAddr / 2 ^ 10 % 2 ^ 14 < 2 ^ 10) :
    s.count h ≠ some 0 ∧ ∃ n' e', s.Finds h startAddr n' e' := by
  obtain ⟨hentry, hlive, -, hstart⟩ := hstarts
  rw [hsegmented.inv.segmentEntry_eq (KernelInv.not_noMaster hsegmented.master)] at hentry
  obtain rfl := Option.some.inj hentry
  refine ⟨?_, ?_⟩
  · have hpos := Layout.liveCount_pos hlive
    rw [hsegmented.counted, ne_eq, Option.some.injEq]
    omega
  · obtain ⟨n', hn', hfirst⟩ := WellFounded.has_min wellFounded_lt
      {n' | (g.segment h n').start = startAddr / 2 ^ 10 % 2 ^ 10}
      ⟨n, show (g.segment h n).start = _ by omega⟩
    exact ⟨n', _, (hsegmented.inv.finds_iff hsegmented.master).mpr
      ⟨rfl, hn', fun n'' hlt hstart => hfirst n'' hstart hlt⟩⟩

/-- Where the search is not misled the call does what it should, and the process goes on. -/
theorem deletes_right (hsegmented : Segmented g h m s) (hfinds : s.FindsRight h startAddr) :
    s.DeletesRight h startAddr ∧
      ∀ status s', s.deleteSegment h startAddr = .ok (status, s') → ∃ g', Segmented g' h m s' := by
  by_cases hcall : startAddr % pageSize = 0 ∧ s.count h ≠ some 0 ∧ ∃ n e, s.Finds h startAddr n e
  · obtain ⟨haligned, hcount, n, e, hfound⟩ := hcall
    obtain ⟨hstarts, hremovable⟩ := (hfinds n e hfound.1).2 haligned hcount hfound
    obtain ⟨rfl, -, -⟩ := (hsegmented.inv.finds_iff hsegmented.master).mp hfound
    have hlive := hstarts.2.1
    have hpos := Layout.liveCount_pos hlive
    have hle := g.liveCount_le h
    have hbefore : s.count h = some (g.liveCount h - 1 + 1) := by
      rw [Nat.sub_add_cancel hpos, hsegmented.counted]
    obtain ⟨g', s₁, s', hdelete, honly, hafter, hinv', hm', hremoved, hcarried⟩ :=
      hsegmented.inv.deleteSegment_deletes hsegmented.sound hsegmented.master
        (hsegmented.mapped n hlive) hbefore (by omega) haligned hfound hremovable
    refine ⟨.inl ⟨n, _, s₁, s', hstarts, hdelete, honly⟩, fun status s₂ hdelete' => ?_⟩
    cases hdelete.symm.trans hdelete'
    exact ⟨g', hsegmented.remove hinv' (hcarried.sound hsegmented.sound) hm' hlive hremoved
      (fun v _ hv => (hcarried.pages v hv).sameRights) hbefore hafter⟩
  · have hnone : ∀ n e, ¬ s.StartsAt h startAddr n e := by
      intro n e hstarts
      obtain ⟨hcount, hfound⟩ := hsegmented.found hstarts ((hfinds n e hstarts.1).1 hstarts)
      exact hcall ⟨hstarts.2.2.1, hcount, hfound⟩
    have hrefuses : s.count h = some 0 ∨ startAddr % pageSize ≠ 0 ∨
        ∀ n e, ¬ s.Finds h startAddr n e := by grind
    obtain ⟨s', hdelete, huntouched, hinv'⟩ :=
      hsegmented.inv.deleteSegment_refuses hsegmented.sound hsegmented.master hrefuses
    refine ⟨.inr ⟨hnone, s', hdelete, huntouched⟩, fun status s₂ hdelete' => ?_⟩
    cases hdelete.symm.trans hdelete'
    exact ⟨g, hsegmented.keep ⟨hinv', hsegmented.sound, hsegmented.master, hsegmented.ranges⟩
      (fun _ => rfl) (fun _ _ => .refl _) (huntouched.count h)⟩

/-- A private segment is created, or refused. -/
theorem created {status : Status} {accType : AccessType} {content : Nat → Option Page}
    (hsegmented : Segmented g h m s) (haddr : startAddr < 2 ^ 32)
    (hclear : status = .ok → startAddr % pageSize = 0 ∧
      NewRange.Recordable ⟨h, ordinal, startAddr, size⟩ ∧
      ∀ v, InRange h startAddr size v → (g.desc v).getInseg = false)
    (hinv : KernelInv g' noHand noHand s') (hm : g'.place (.master h) = .frame m)
    (hcreated : SegmentCreated g s h ordinal startAddr size accType content g' s' status)
    (hcount : s'.count h = if status = .ok then (s.count h).map (· + 1) else s.count h) :
    Segmented g' h m s' := by
  have hranged := hsegmented.toRanged.created haddr hclear hinv hm hcreated
  obtain ⟨rfl, _, rfl⟩ | ⟨rfl, hnew, hcarried, hpages⟩ := hcreated
  · exact hsegmented.keep hranged (fun _ => rfl) (fun _ _ => .refl _) (hcount.trans (if_neg nofun))
  · obtain ⟨_, hrecordable, hrange⟩ := hclear rfl
    exact hsegmented.create hranged hrecordable (by decide) hrange hnew
      (fun i hi => ⟨(hpages i hi).1.inseg, (hpages i hi).1.shared⟩)
      (fun v _ hv => (hcarried.pages v hv).sameRights) (hcount.trans (if_pos rfl))

end Segmented

namespace KernelOp

/-- A call that deletes is not misled. -/
def FindsRight (s : KernelSystem) : KernelOp → Prop
  | .deleteSegment h startAddr => s.FindsRight h startAddr
  | _ => True

instance (s : KernelSystem) (op : KernelOp) : Decidable (op.FindsRight s) :=
  match op with
  | .deleteSegment h startAddr => inferInstanceAs (Decidable (s.FindsRight h startAddr))
  | .createProcess | .cloneProcess _ | .deleteProcess _ | .createSegment .. | .loadSegment ..
  | .createSharedSegment .. | .disconnectSharedSegment .. | .deleteSharedSegment _
  | .pageFault .. | .access .. => instDecidableTrue

end KernelOp

/-- A call on the segments of the process leaves them mapped and counted. -/
theorem Segmented.step {g : Layout} {s s' : KernelSystem} {h m levels : Nat} {op : KernelOp}
    (hsegmented : Segmented g h m s) (hcall : op.SegmentCall h) (hrecorded : op.Recorded s)
    (hfinds : op.FindsRight s) (hstep : op.Step levels s s') : ∃ g', Segmented g' h m s' := by
  obtain ⟨hinv, hsound, hm⟩ : KernelInv g noHand noHand s ∧ g.Sound ∧
    g.place (.master h) = .frame m := ⟨hsegmented.inv, hsegmented.sound, hsegmented.master⟩
  cases op with
  | createSegment h' startAddr size accType =>
      obtain ⟨rfl, haddr⟩ := hcall
      obtain ⟨⟨status, s₁⟩, hcreate, hret⟩ := Outcome.bind_ok hstep
      cases hret
      have hclear := hsegmented.clear haddr (hrecorded _ rfl) fun hrefuses =>
        show status = .trap from Plain.newSegment_refused hinv hm hrefuses hcreate
      obtain ⟨g', hinv', hm', _, hcreated⟩ :=
        hinv.createSegment_inv hsound hm (fun hok => (hclear hok).2.2) hcreate
      exact ⟨g', hsegmented.created haddr hclear hinv' hm' hcreated (createSegment_count hcreate)⟩
  | loadSegment h' startAddr size accType content =>
      obtain ⟨rfl, haddr⟩ := hcall
      obtain ⟨⟨status, s₁⟩, hload, hret⟩ := Outcome.bind_ok hstep
      cases hret
      have hclear := hsegmented.clear haddr (hrecorded _ rfl) fun hrefuses =>
        show status = .trap from Plain.newSegment_refused hinv hm hrefuses hload
      obtain ⟨g', hinv', hm', _, hcreated⟩ :=
        hinv.loadSegment_inv hsound hm (fun hok => (hclear hok).2.2) hload
      exact ⟨g', hsegmented.created haddr hclear hinv' hm' hcreated (loadSegment_count hload)⟩
  | createSharedSegment h' startAddr size name accType =>
      obtain ⟨rfl, haddr⟩ := hcall
      obtain ⟨⟨status, s₁⟩, hcreate, hret⟩ := Outcome.bind_ok hstep
      cases hret
      have hclear := hsegmented.clear haddr (hrecorded _ rfl) fun hrefuses =>
        show status = .trap from hinv.createSharedSegment_refused hm hrefuses hcreate
      have hold := hinv.not_madeSince hm
      have hcount := createSharedSegment_count hinv hm hcreate
      obtain ⟨g', hinv', hm', _, ⟨rfl, hcarried⟩ | ⟨rfl, hnew, hcarried, ⟨ssegInd, _, hpages⟩,
          _⟩⟩ := hinv.createSharedSegment_inv hsound hm (fun hok => (hclear hok).2.2) hcreate
      · refine ⟨g', hsegmented.keep ⟨hinv', hcarried.sound hsound, hm', hsegmented.ranges.keep
          hcarried hold fun v hv heq => hold (heq ▸ hv)⟩ (fun n => ?_) (fun v hv => ?_)
          (hcount.trans (if_neg nofun))⟩
        · exact congrArg PageTableL2Entry.toSeg (hcarried.segs _ n hold)
        · exact (hcarried.pages v fun hmade => hold (hv ▸ hmade)).sameRights
      · obtain ⟨halign, hrecordable, hrange⟩ := hclear rfl
        have hrights : ∀ v, v.proc = h' → ¬ InRange h' startAddr size v →
            SameRights (g.desc v) (g'.desc v) := fun v hproc hv =>
          (hcarried.pages v fun hbut => hbut.elim hv fun hmade => hold (hproc ▸ hmade)).sameRights
        exact ⟨g', hsegmented.create ⟨hinv', hcarried.sound hsound, hm', hsegmented.ranges.create
          haddr halign hrecordable.2 (by decide) hnew hrights⟩ hrecordable (by decide) hrange hnew
          (fun i hi => ⟨(hpages i hi).inseg, (hpages i hi).shared⟩) hrights
          (hcount.trans (if_pos rfl))⟩
  | deleteSegment h' startAddr =>
      obtain rfl := hcall
      obtain ⟨⟨status, s₁⟩, hdelete, hret⟩ := Outcome.bind_ok hstep
      cases hret
      exact (hsegmented.deletes_right hfinds).2 status _ hdelete
  | _ => exact absurd hcall id

namespace KernelOp

/-- In every state that calls on the segments of a new process lead to, where each one that
creates records its segment where it is and no search is misled, `delete_segment` deletes the
segment that starts at the address, or refuses where there is none. -/
theorem deletes_at_address {levels h startAddr : Nat} {before start s : KernelSystem}
    {ops : List KernelOp} (hcons : before.Consistent)
    (hcreate : before.createProcess = .ok (h, start))
    (hrun : Run (fun s (op : KernelOp) s' => op.SegmentCall h ∧ op.Recorded s ∧
      op.FindsRight s ∧ op.Step levels s s') start ops s)
    (hfinds : s.FindsRight h startAddr) : s.DeletesRight h startAddr := by
  have hreached : ∃ g m, Segmented g h m s := by
    refine hrun.invariant (fun s => ∃ g m, Segmented g h m s) ?_ (Segmented.start hcons hcreate)
    rintro s op s' ⟨g, m, hsegmented⟩ ⟨hcall, hrecorded, hright, hstep⟩
    obtain ⟨g', hsegmented'⟩ := hsegmented.step hcall hrecorded hright hstep
    exact ⟨g', m, hsegmented'⟩
  obtain ⟨g, m, hsegmented⟩ := hreached
  exact (hsegmented.deletes_right hfinds).1

/-- A mapping of a shared segment, behind a private segment that was deleted. -/
theorem deletes_at_address_mapping : ∃ s : KernelSystem, s.InSegment (pageOf 0 10240) ∧
    s.DeletesRight 0 10240 := by
  have hruns : (runFirst
      (fun s op _ => decide (op.SegmentCall 0 ∧ op.Recorded s ∧ op.FindsRight s)) 1 4 4 []
      [.createSegment 0 5120 2 .readWrite, .createSharedSegment 0 10240 1 "s" .readWrite,
        .deleteSegment 0 5120]).any (fun r =>
      decide (r.2.1 = 0) && decide (r.2.2.2.InSegment (pageOf 0 10240)) &&
        decide (r.2.2.2.FindsRight 0 10240)) = true := by
    decide +kernel
  obtain ⟨⟨before, h, start, s⟩, hr, hcheck⟩ := (Option.any_eq_true _ _).mp hruns
  simp only [Bool.and_eq_true, decide_eq_true_eq] at hcheck
  obtain ⟨⟨rfl, hinseg⟩, hfinds⟩ := hcheck
  obtain ⟨hboot, hcreate, hrun⟩ := runFirst_run hr
  have hcons : before.Consistent :=
    ⟨_, boot_inv (by decide) (by decide) hboot, Layout.sound_none⟩
  have hsteps : Run (fun s (op : KernelOp) s' => op.SegmentCall 0 ∧ op.Recorded s ∧
      op.FindsRight s ∧ op.Step 2 s s') start _ s := hrun.weaken fun _ _ _ h => by
    obtain ⟨hcall, hrecorded, hright⟩ := of_decide_eq_true h.1
    exact ⟨hcall, hrecorded, hright, h.2⟩
  exact ⟨s, hinseg, deletes_at_address hcons hcreate hsteps hfinds⟩

/-- With one segment at page 5, deleting at page 0 finds an entry that was never used. -/
theorem deletes_elsewhere : ¬ ∀ (h startAddr : Nat) (before start s : KernelSystem)
    (ops : List KernelOp), before.Consistent → before.createProcess = .ok (h, start) →
    Run (fun s (op : KernelOp) s' => op.SegmentCall h ∧ op.Step 2 s s') start ops s →
    s.DeletesRight h startAddr := by
  intro hall
  have hruns : (runFirst (fun _ op _ => decide (op.SegmentCall 0)) 1 2 2 []
      [.createSegment 0 5120 1 .read]).any (fun r =>
      decide (r.2.1 = 0) &&
        decide (∀ n, ∀ e ∈ r.2.2.2.segmentEntry 0 n, ¬ r.2.2.2.StartsAt 0 0 n e) &&
        Outcome.holds (r.2.2.2.deleteSegment 0 0) fun r' => decide (r'.1 = .ok)) = true := by
    decide +kernel
  obtain ⟨⟨before, h, start, s⟩, hr, hcheck⟩ := (Option.any_eq_true _ _).mp hruns
  simp only [Bool.and_eq_true, decide_eq_true_eq] at hcheck
  obtain ⟨⟨rfl, hnone⟩, hdeletes⟩ := hcheck
  obtain ⟨hboot, hcreate, hrun⟩ := runFirst_run hr
  have hcons : before.Consistent :=
    ⟨_, boot_inv (by decide) (by decide) hboot, Layout.sound_none⟩
  obtain ⟨⟨status, s'⟩, hdelete, hok⟩ := Outcome.of_holds hdeletes
  obtain rfl : status = .ok := of_decide_eq_true hok
  obtain ⟨n, e, -, -, hstarts, -⟩ | ⟨-, s₂, htrap, -⟩ := hall 0 0 before start s _ hcons hcreate
    (hrun.weaken fun _ _ _ h => ⟨of_decide_eq_true h.1, h.2⟩)
  · exact hnone n e hstarts.1 hstarts
  · cases hdelete.symm.trans htrap

end KernelOp

end VirtualMemory
