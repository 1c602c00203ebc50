import VirtualMemory.SegmentCounts
import VirtualMemory.SegmentRecords

/-!
# Creating segments in any order

`create_segment` on disjoint page ranges of a new process. The overlap test compares the
last byte-sized offset of the new range with the first page of an old one, so that a range
in front of one that is there already is refused unless it is far from it; apart from that
nothing is refused, and a call stops only when the disk is full or no frame can be evicted.
-/

namespace VirtualMemory

open Function UserSpace KernelSystem Outcome

/-- What a call may run out of: clusters, and frames that are not locked. -/
def Halt.isExhausted (halt : Halt) : Bool := halt.isDiskFull || decide (halt = .noVictim)

namespace KernelInv

variable {g : Layout} {s s' : KernelSystem} {h m addr : Nat} {halt : Halt}

theorem ksRequestPage_stops {type : PageType} {owner : KsOwner} {cluster : Nat} {lock : Bool}
    (hinv : KernelInv g noHand noHand s) (hm : g.place (.master h) = .frame m)
    (hdice : s.dice ≠ []) (hrequest : s.ksRequestPage type owner cluster lock = .error halt) :
    halt.isExhausted = true := by
  have hpool : s.ksReserved < s.krnlspcSize := by
    obtain ⟨hle, hlt⟩ := hinv.hasFrame hm
    omega
  obtain hacquire | ⟨⟨page, s₁⟩, _, hget⟩ := bind_error hrequest
  · obtain htake | ⟨_, _, hret⟩ := bind_error hacquire
    · obtain hfull | hvictim := hinv.ksTakePage_error hpool htake
      · simp [Halt.isExhausted, hfull]
      · simp [Halt.isExhausted, ksGetVictim_error hdice hvictim]
    · cases hret
  · dsimp only at hget
    split at hget <;> cases hget

theorem fetchPageTable_stops {lock : Bool} {a : KAddr} (hinv : KernelInv g noHand noHand s)
    (hm : g.place (.master h) = .frame m) (hdice : s.dice ≠ [])
    (hfetch : s.fetchPageTable a lock = .error halt) : halt.isExhausted = true := by
  obtain hrequest | ⟨_, _, hret⟩ := bind_error hfetch
  · exact hinv.ksRequestPage_stops hm hdice hrequest
  · cases hret

/-- Getting hold of the page table of a page of a new segment. -/
theorem lockPtl2_stops (hinv : KernelInv g noHand noHand s) (hsound : g.Sound)
    (hm : LockedIn g s (.master h) m) (hdice : s.dice ≠ [])
    (hlock : s.lockPtl2 h addr ⟨m, slotCell (slotOf addr)⟩ = .error halt) :
    halt.isExhausted = true := by
  unfold lockPtl2 at hlock
  split at hlock
  · obtain hrequest | ⟨_, _, hret⟩ := bind_error hlock
    · exact hinv.ksRequestPage_stops hm.1 hdice hrequest
    · cases hret
  · rename_i hused
    obtain ⟨p, hp, _, hat⟩ := hinv.pcb_ok hm.1
    have hindex : p.ptl1Ptr.index (ptl1Slot addr) = ⟨m, slotCell (slotOf addr)⟩ := by
      rw [hat.ptl1Ptr, ← index_slotCell]
      rfl
    have hagree := hinv.agrees hm.1 (slotOf addr)
    unfold pageTableLock at hlock
    simp only [hp, ok_bind, hindex] at hlock
    cases hpl : g.place (.table h (slotOf addr)) with
    | frame k =>
        rw [hpl] at hagree
        rw [if_neg (by rw [hagree.1]; decide), if_pos hagree.1] at hlock
        cases hlock
    | cluster c =>
        rw [hpl] at hagree
        rw [if_pos hagree.1] at hlock
        obtain hfetch | ⟨_, _, hret⟩ := bind_error hlock
        · exact hinv.fetchPageTable_stops hm.1 hdice hfetch
        · cases hret
    | lost => exact absurd hpl (hsound h _ m hm.1)
    | gone =>
        rw [hpl] at hagree
        exact absurd hagree hused

end KernelInv

section Rolls

variable {s s' : KernelSystem} {h : Nat}

theorem ksRequestPage_dice {type : PageType} {owner : KsOwner} {cluster page : Nat} {lock : Bool}
    (hrequest : s.ksRequestPage type owner cluster lock = .ok (page, s')) :
    s.dice.length ≤ s'.dice.length + 1 := by
  obtain ⟨⟨page', s₂⟩, hacquire, hget⟩ := bind_ok hrequest
  obtain ⟨⟨page'', s₃⟩, htake, hft⟩ := bind_ok hacquire
  have hone := ksTakePage_dice htake
  cases hft
  dsimp only at hget
  split at hget <;>
    · cases hget
      exact hone

theorem lockPtl2_dice {addr pg : Nat} {a : KAddr}
    (hlock : s.lockPtl2 h addr a = .ok (pg, s')) : s.dice.length ≤ s'.dice.length + 1 := by
  unfold lockPtl2 at hlock
  split at hlock
  · obtain ⟨⟨page, s₁⟩, hrequest, hret⟩ := bind_ok hlock
    have hone := ksRequestPage_dice hrequest
    cases hret
    exact hone
  · obtain ⟨p, _, hrest⟩ := bind_ok hlock
    dsimp only at hrest
    split at hrest
    · obtain ⟨s₁, hfetch, hret⟩ := bind_ok hrest
      cases hret
      exact KernelInv.fetchPageTable_dice hfetch
    · split at hrest
      · cases hrest
        exact Nat.le_succ _
      · cases hrest

theorem recordSegment_dice {ordinal size entry : Nat} {kind : KindEnum}
    (hrecord : s.recordSegment h ordinal size kind = .ok (entry, s')) : s'.dice = s.dice := by
  obtain ⟨p, _, hrest⟩ := bind_ok hrecord
  split at hrest
  · cases hrest
  · cases hrest
    rfl

end Rolls

/-- What `create_segment` does to a descriptor. -/
def mapWork (accType : AccessType) (s : KernelSystem) (ptl2e : KAddr) (_ : Nat) :
    Except Halt KernelSystem :=
  .ok (s.withUser (s.mapPage ptl2e accType))

namespace Working

variable {g : Layout} {s s' : KernelSystem} {h m startAddr size i : Nat} {accType : AccessType}
  {halt : Halt}

/-- One page: the work goes on, with one roll less at most. -/
theorem createPage_ok (hwork : Working g h m s)
    (hinseg : (g.desc (pageOf h (pageAddr startAddr i))).getInseg = false)
    (hpage : segmentPage h startAddr (mapWork accType) s i = .ok s') :
    ∃ g', Working g' h m s' ∧
      Carried KTable.IsTable (fun _ => False) (· = pageOf h (pageAddr startAddr i)) g s g' s' ∧
      s.dice.length ≤ s'.dice.length + 1 := by
  have hrolls : s.dice.length ≤ s'.dice.length + 1 := by
    unfold segmentPage at hpage
    simp only [hwork.inv.accessPtl1_eq hwork.master.1, deref, ok_bind] at hpage
    obtain ⟨⟨pg, s₁⟩, hlock, hrest⟩ := bind_ok hpage
    obtain ⟨ptl2e, _, hrest⟩ := bind_ok hrest
    have hone := lockPtl2_dice hlock
    cases hrest
    rw [pageUnlock_user]
    exact hone
  obtain ⟨g₁, s₁, f, s₂, hinv₁, hpaged, _, hin, hmap, rfl⟩ :=
    hwork.inv.segmentPage_ok hwork.sound hwork.master hpage
  cases hmap
  have hout : (g₁.desc (pageOf h (pageAddr startAddr i))).getInseg = false := by
    rw [(hpaged.pages _ id).sameRights.inseg, hinseg]
  obtain ⟨huser, hbut⟩ := mapPage_inv (v := pageOf h (pageAddr startAddr i)) hinv₁.user
    (Layout.addr_of_frame hin.table _) hout accType
  obtain ⟨hinv₂, hcarried₂, _⟩ := hinv₁.userStep hin.table huser hbut
  obtain ⟨hinv₃, hunlock, _⟩ := hinv₂.pageUnlock_inv
    (t := .table h (slotOf (pageAddr startAddr i))) (by simpa using hin.table)
  have htable : ∀ u : KTable, u = .table h (slotOf (pageAddr startAddr i)) ∨ u.IsTable →
      u.IsTable := by
    rintro u (rfl | hu)
    · exact ⟨h, _, rfl⟩
    · exact hu
  have hto : Carried KTable.IsTable (fun _ => False)
      (· = pageOf h (pageAddr startAddr i)) g s _ _ :=
    hpaged.carried.trans ((hcarried₂.mono (fun _ => False.elim) (fun _ => False.elim)
      (fun _ => id)).trans
        (hunlock.mono htable (fun _ => False.elim) (fun _ => False.elim)))
  exact ⟨_, hwork.carry hinv₃ hto (KTable.master_not_table h), hto, hrolls⟩

theorem createPage_stops (hwork : Working g h m s) (hdice : s.dice ≠ [])
    (hpage : segmentPage h startAddr (mapWork accType) s i = .error halt) :
    halt.isExhausted = true := by
  unfold segmentPage at hpage
  simp only [hwork.inv.accessPtl1_eq hwork.master.1, deref, ok_bind] at hpage
  obtain hlock | ⟨⟨pg, s₁⟩, hlock, hrest⟩ := bind_error hpage
  · exact hwork.inv.lockPtl2_stops hwork.sound hwork.master hdice hlock
  · obtain ⟨g₁, hinv₁, _, _, hin⟩ := hwork.inv.lockPtl2_inv hwork.sound hwork.master hlock
    simp only [hinv₁.accessPtl2_eq hin.master.1 hin.table, derefPtl2, ok_bind, mapWork] at hrest
    cases hrest

/-- Between two pages of the loop. -/
structure Filling (g : Layout) (h m startAddr : Nat) (rest : List Nat) (s : KernelSystem) :
    Prop where
  work : Working g h m s
  nodup : rest.Nodup
  lt : ∀ i ∈ rest, i < 2 ^ 14
  clear : ∀ i ∈ rest, (g.desc (pageOf h (pageAddr startAddr i))).getInseg = false

theorem Filling.step {rest : List Nat} (hfilling : Filling g h m startAddr (i :: rest) s)
    (hpage : segmentPage h startAddr (mapWork accType) s i = .ok s') :
    ∃ g', Filling g' h m startAddr rest s' ∧ s.dice.length ≤ s'.dice.length + 1 := by
  obtain ⟨g', hwork', hcarried, hrolls⟩ :=
    hfilling.work.createPage_ok (hfilling.clear i (by simp)) hpage
  obtain ⟨hi, hrest⟩ := List.nodup_cons.mp hfilling.nodup
  refine ⟨g', ⟨hwork', hrest, fun j hj => hfilling.lt j (by simp [hj]), fun j hj => ?_⟩, hrolls⟩
  have hne : pageOf h (pageAddr startAddr j) ≠ pageOf h (pageAddr startAddr i) := by
    intro heq
    rw [pageAddr_inj (hfilling.lt j (by simp [hj])) (hfilling.lt i (by simp)) heq] at hj
    exact hi hj
  rw [(hcarried.pages _ hne).sameRights.inseg]
  exact hfilling.clear j (by simp [hj])

theorem fillSegment_stops (hwork : Working g h m s) (hsize : size ≤ 2 ^ 14)
    (hclear : ∀ v, InRange h startAddr size v → (g.desc v).getInseg = false)
    (hdice : size ≤ s.dice.length)
    (hfill : s.fillSegment h startAddr size (mapWork accType) = .error halt) :
    halt.isExhausted = true := by
  obtain ⟨i, rest, s₁, ⟨⟨g₁, hfilling⟩, hlength⟩, hpage⟩ := foldlM_error
    (fun rest s => (∃ g, Filling g h m startAddr rest s) ∧ rest.length ≤ s.dice.length)
    (fun i rest s₁ s₂ ⟨⟨g₁, hfilling⟩, hlength⟩ hpage => by
      obtain ⟨g₂, hnext, hrolls⟩ := hfilling.step hpage
      rw [List.length_cons] at hlength
      exact ⟨⟨g₂, hnext⟩, by omega⟩)
    ⟨⟨g, hwork, List.nodup_range, fun i hi => by rw [List.mem_range] at hi; omega,
      fun i hi => hclear _ ⟨i, List.mem_range.mp hi, rfl⟩⟩, by rwa [List.length_range]⟩ hfill
  refine hfilling.work.createPage_stops (fun hnil => ?_) hpage
  rw [hnil] at hlength
  simp at hlength

theorem fillSegment_dice (hwork : Working g h m s) (hsize : size ≤ 2 ^ 14)
    (hclear : ∀ v, InRange h startAddr size v → (g.desc v).getInseg = false)
    (hfill : s.fillSegment h startAddr size (mapWork accType) = .ok s') :
    s.dice.length ≤ s'.dice.length + size := by
  obtain ⟨_, hlength⟩ := foldlM_ok
    (fun rest s₁ => (∃ g, Filling g h m startAddr rest s₁) ∧
      s.dice.length + rest.length ≤ s₁.dice.length + size)
    (fun i rest s₁ s₂ ⟨⟨g₁, hfilling⟩, hlength⟩ hpage => by
      obtain ⟨g₂, hnext, hrolls⟩ := hfilling.step hpage
      rw [List.length_cons] at hlength
      exact ⟨⟨g₂, hnext⟩, by omega⟩)
    ⟨⟨g, hwork, List.nodup_range, fun i hi => by rw [List.mem_range] at hi; omega,
      fun i hi => hclear _ ⟨i, List.mem_range.mp hi, rfl⟩⟩, by rw [List.length_range]⟩ hfill
  simpa using hlength

/-- With an entry to use, the record is made. -/
theorem recordSegment_returns {ordinal : Nat} {kind : KindEnum} {n : Fin 192}
    (hwork : Working g h m s) (hfree : (g.segment h n).getKind = .free) :
    s.recordSegment h ordinal size kind ≠ .error halt := by
  obtain ⟨p, hp, _, hat⟩ := hwork.inv.pcb_ok hwork.master.1
  unfold recordSegment
  simp only [hp, ok_bind]
  split
  · rename_i hnone
    have hnot := List.find?_eq_none.mp hnone n (by simp [maxSegments])
    rw [KernelInv.index_ste hat, hwork.inv.ste_eq hwork.master.1, hfree] at hnot
    exact absurd rfl hnot
  · intro herror
    cases herror

end Working

section Call

variable {g : Layout} {s s' : KernelSystem} {h m startAddr size : Nat} {accType : AccessType}
  {status : Status} {halt : Halt} {n : Fin 192}

/-- What is not refused is created. -/
theorem KernelInv.createSegment_status (hinv : KernelInv g noHand noHand s)
    (hm : g.place (.master h) = .frame m)
    (hcreate : s.createSegment h startAddr size accType = .ok (status, s')) :
    status = .ok ↔ s.refuses h (startAddr / 2 ^ 10 % 2 ^ 14) startAddr size = false := by
  constructor
  · rintro rfl
    by_contra hrefuses
    cases Plain.newSegment_refused hinv hm (by simpa using hrefuses) hcreate
  · intro haccepts
    obtain ⟨p, hp, hpcb, hat⟩ := hinv.pcb_ok hm
    have hp' : (s.ksLockPage m).pcb h = .ok p := hp
    rw [refuses, hpcb, Option.any_some, Bool.or_eq_false_iff, Bool.not_eq_false'] at haccepts
    obtain ⟨hargs, hover⟩ := haccepts
    have hover' : (s.ksLockPage m).anyOverlap p (startAddr / 2 ^ 10 % 2 ^ 14) startAddr size =
        false := hover
    unfold createSegment newSegment at hcreate
    simp only [hp, ok_bind, hargs, Bool.not_true, Bool.false_eq_true, if_false,
      hinv.masterTableLock_ok hm, hp', hover'] at hcreate
    obtain ⟨_, _, hrest⟩ := bind_ok hcreate
    obtain ⟨_, _, hret⟩ := bind_ok hrest
    cases hret
    rfl

/-- A call on a clear range stops only when something is exhausted. -/
theorem KernelInv.createSegment_stops (hinv : KernelInv g noHand noHand s) (hsound : g.Sound)
    (hm : g.place (.master h) = .frame m) (hfree : (g.segment h n).getKind = .free)
    (hsize : size ≤ 2 ^ 14)
    (hclear : ∀ v, InRange h startAddr size v → (g.desc v).getInseg = false)
    (hdice : size ≤ s.dice.length)
    (hcreate : s.createSegment h startAddr size accType = .error halt) :
    halt.isExhausted = true := by
  obtain ⟨p, hp, hpcb, hat⟩ := hinv.pcb_ok hm
  have hp' : (s.ksLockPage m).pcb h = .ok p := hp
  obtain ⟨hwork, _⟩ := hinv.working hsound hm
  unfold createSegment newSegment at hcreate
  simp only [hp, ok_bind, hinv.masterTableLock_ok hm, hp'] at hcreate
  split at hcreate
  · cases hcreate
  · split at hcreate
    · cases hcreate
    · obtain hrecord | ⟨⟨entry, s₁⟩, hrecord, hrest⟩ := bind_error hcreate
      · exact absurd hrecord (hwork.recordSegment_returns hfree)
      · obtain ⟨n', rfl, _, hwork₁, _⟩ := hwork.recordSegment_ok hrecord
        obtain hfill | ⟨_, _, hret⟩ := bind_error hrest
        · refine hwork₁.fillSegment_stops hsize (fun v hv => ?_) ?_ hfill
          · rw [Layout.setSegment_desc]
            exact hclear v hv
          · rw [recordSegment_dice hrecord]
            exact hdice
        · cases hret

theorem KernelInv.createSegment_dice (hinv : KernelInv g noHand noHand s) (hsound : g.Sound)
    (hm : g.place (.master h) = .frame m) (hsize : size ≤ 2 ^ 14)
    (hclear : ∀ v, InRange h startAddr size v → (g.desc v).getInseg = false)
    (hcreate : s.createSegment h startAddr size accType = .ok (.ok, s')) :
    s.dice.length ≤ s'.dice.length + size := by
  obtain ⟨p, hp, hpcb, hat⟩ := hinv.pcb_ok hm
  have hp' : (s.ksLockPage m).pcb h = .ok p := hp
  obtain ⟨hwork, _⟩ := hinv.working hsound hm
  unfold createSegment newSegment at hcreate
  simp only [hp, ok_bind, hinv.masterTableLock_ok hm, hp'] at hcreate
  split at hcreate
  · cases hcreate
  · split at hcreate
    · cases hcreate
    · obtain ⟨⟨entry, s₁⟩, hrecord, hrest⟩ := bind_ok hcreate
      obtain ⟨s₂, hfill, hret⟩ := bind_ok hrest
      obtain ⟨n', rfl, _, hwork₁, _⟩ := hwork.recordSegment_ok hrecord
      have hrolls := hwork₁.fillSegment_dice hsize (fun v hv => by
        rw [Layout.setSegment_desc]
        exact hclear v hv) hfill
      rw [recordSegment_dice hrecord] at hrolls
      cases hret
      rw [pageUnlock_user]
      exact hrolls

end Call

/-- How many entries of a segment table are live. -/
def Layout.liveCount (g : Layout) (h : Nat) : Nat :=
  (Finset.univ.filter fun n => (g.segment h n).getKind ≠ .free).card

namespace Layout

variable {g g' : Layout} {h ordinal startAddr size : Nat} {kind : KindEnum}

theorem exists_free (hlt : g.liveCount h < 192) : ∃ n, (g.segment h n).getKind = .free := by
  by_contra hnone
  push Not at hnone
  have hall : g.liveCount h = 192 := by
    rw [liveCount, Finset.filter_true_of_mem fun n _ => hnone n]
    exact Finset.card_fin 192
  omega

theorem liveCount_new (hnew : NewSegment g h ordinal startAddr size kind g')
    (hlive : kind ≠ .free) :
    g'.liveCount h = g.liveCount h + 1 := by
  obtain ⟨n, hfree, hentry⟩ := hnew.entry
  have hsame : (Finset.univ.filter fun n' => (g'.segment h n').getKind ≠ .free) =
      insert n (Finset.univ.filter fun n' => (g.segment h n').getKind ≠ .free) := by
    ext n'
    simp only [Finset.mem_filter, Finset.mem_univ, true_and, Finset.mem_insert, hentry]
    split
    · rename_i hn
      simp [hn, Working.getKind_recorded, hlive]
    · rename_i hn
      simp [hn]
  rw [liveCount, hsame, Finset.card_insert_of_notMem (by simp [hfree])]
  rfl

end Layout

/-- A range of pages for a segment. -/
structure PageRange where
  page : Nat
  size : Nat
  accType : AccessType

namespace PageRange

def startAddr (r : PageRange) : Nat := r.page * pageSize

/-- A range of the address space, with a page. -/
structure Fits (r : PageRange) : Prop where
  pos : 0 < r.size
  le : r.page + r.size ≤ 2 ^ 14

instance (r : PageRange) : Decidable r.Fits :=
  decidable_of_iff (0 < r.size ∧ r.page + r.size ≤ 2 ^ 14)
    ⟨fun h => ⟨h.1, h.2⟩, fun h => ⟨h.1, h.2⟩⟩

/-- Two ranges without a common page. -/
def Apart (r r' : PageRange) : Prop := r.page + r.size ≤ r'.page ∨ r'.page + r'.size ≤ r.page

/-- The overlap test lets a range pass in front of an earlier one only from far off. -/
def Passes (earlier later : PageRange) : Prop :=
  later.page < earlier.page → later.page * pageSize + later.size ≤ earlier.page

/-- The record of a segment says where a range is. -/
def On (r : PageRange) (e : SegTableEntry) : Prop :=
  e.getKind ≠ .free ∧ e.start = r.page ∧ e.getLength = r.size

variable {r r' : PageRange} {e : SegTableEntry}

theorem ordinal_eq (hfits : r.Fits) : r.startAddr / 2 ^ 10 % 2 ^ 14 = r.page := by
  have hpos := hfits.pos
  have hle := hfits.le
  unfold startAddr pageSize
  omega

/-- The overlap test of a range against the record of another one. -/
theorem overlaps_iff (hon : r'.On e) (hfits : r.Fits) (hfits' : r'.Fits) (hapart : r'.Apart r) :
    overlaps e (r.startAddr / 2 ^ 10 % 2 ^ 14) r.startAddr r.size = false ↔ r'.Passes r := by
  obtain ⟨hkind, hstart, hlength⟩ := hon
  have hpos := hfits.pos
  have hle := hfits.le
  have hpos' := hfits'.pos
  have hle' := hfits'.le
  rw [ordinal_eq hfits]
  simp only [overlaps, hkind, ne_eq, not_false_eq_true, decide_true, Bool.true_and,
    Bool.not_eq_false', Bool.or_eq_true, decide_eq_true_eq, hstart, hlength, startAddr, pageSize,
    Passes, Apart] at hapart ⊢
  omega

end PageRange

/-- `create_segment` for one range after the other, with what each call returns. -/
def KernelSystem.createEach (h : Nat) :
    List PageRange → KernelSystem → Except Halt (List Status × KernelSystem)
  | [], s => .ok ([], s)
  | r :: rs, s => do
      let (status, s) ← s.createSegment h r.startAddr r.size r.accType
      let (statuses, s) ← createEach h rs s
      .ok (status :: statuses, s)

/-- The process has the segments of these ranges, and no others. -/
structure Created (g : Layout) (h m : Nat) (s : KernelSystem) (done : List PageRange) :
    Prop where
  ranged : Ranged g h m s
  count : s.count h = some done.length
  live : g.liveCount h = done.length
  mem : ∀ n, (g.segment h n).getKind ≠ .free → ∃ r ∈ done, r.On (g.segment h n)
  listed : ∀ r ∈ done, ∃ n, r.On (g.segment h n)

namespace Created

variable {g : Layout} {s s' : KernelSystem} {h m : Nat} {done : List PageRange} {r : PageRange}
  {status : Status} {halt : Halt}

theorem accepts_iff (hcreated : Created g h m s done) (hlength : done.length < 192)
    (hfits : r.Fits) (hdone : ∀ r' ∈ done, r'.Fits ∧ r'.Apart r) :
    s.refuses h (r.startAddr / 2 ^ 10 % 2 ^ 14) r.startAddr r.size = false ↔
      ∀ r' ∈ done, r'.Passes r := by
  obtain ⟨p, _, hpcb, hat⟩ := hcreated.ranged.inv.pcb_ok hcreated.ranged.master
  have hcount : p.segCount = done.length := by
    have hcount := hcreated.count
    rw [KernelSystem.count, hpcb] at hcount
    exact Option.some.inj hcount
  have hargs : segmentArgs p r.startAddr r.size = true := by
    have hpos := hfits.pos
    have hle := hfits.le
    simp only [segmentArgs, PageRange.startAddr, Nat.mul_mod_left, maxSegments, Bool.and_eq_true,
      decide_eq_true_eq, ne_eq, and_true, hcount]
    omega
  have hover : s.anyOverlap p (r.startAddr / 2 ^ 10 % 2 ^ 14) r.startAddr r.size = false ↔
      ∀ n, overlaps (g.segment h n) (r.startAddr / 2 ^ 10 % 2 ^ 14) r.startAddr r.size = false := by
    rw [← Bool.not_eq_true, hcreated.ranged.inv.anyOverlap_eq hcreated.ranged.master hat]
    simp
  rw [refuses, hpcb, Option.any_some, hargs, Bool.not_true, Bool.false_or, hover]
  constructor
  · intro hall r' hr'
    obtain ⟨n, hon⟩ := hcreated.listed r' hr'
    obtain ⟨hfits', hapart⟩ := hdone r' hr'
    exact (PageRange.overlaps_iff hon hfits hfits' hapart).mp (hall n)
  · intro hall n
    by_cases hkind : (g.segment h n).getKind = .free
    · simp [overlaps, hkind]
    · obtain ⟨r', hr', hon⟩ := hcreated.mem n hkind
      obtain ⟨hfits', hapart⟩ := hdone r' hr'
      exact (PageRange.overlaps_iff hon hfits hfits' hapart).mpr (hall r' hr')

/-- The pages of a range that has none in common with the others are free. -/
theorem clear (hcreated : Created g h m s done) (hfits : r.Fits)
    (hdone : ∀ r' ∈ done, r'.Fits ∧ r'.Apart r) :
    ∀ v, InRange h r.startAddr r.size v → (g.desc v).getInseg = false := by
  intro v hv
  by_contra hinseg
  have hproc : v.proc = h := by
    obtain ⟨i, _, rfl⟩ := hv
    rfl
  obtain ⟨n, hkind, hfirst, hlast⟩ := hcreated.ranged.ranges.covered v hproc (by simpa using hinseg)
  obtain ⟨r', hr', _, hstart, hlength⟩ := hcreated.mem n hkind
  have hordinal := PageRange.ordinal_eq hfits
  have hnumber := number_of_inRange hv (by rw [hordinal]; exact hfits.le)
  obtain ⟨_, hapart | hapart⟩ := hdone r' hr' <;> omega

theorem step (hcreated : Created g h m s done) (hfits : r.Fits) (hsize : r.size < 2 ^ 14)
    (hdone : ∀ r' ∈ done, r'.Fits ∧ r'.Apart r)
    (hcreate : s.createSegment h r.startAddr r.size r.accType = .ok (.ok, s')) :
    ∃ g', Created g' h m s' (r :: done) := by
  have hclear := hcreated.clear hfits hdone
  have hordinal := PageRange.ordinal_eq hfits
  have hle := hfits.le
  have haddr : r.startAddr < 2 ^ 32 := by
    unfold PageRange.startAddr pageSize
    omega
  have hrecordable : NewRange.Recordable ⟨h, r.startAddr / 2 ^ 10 % 2 ^ 14, r.startAddr, r.size⟩ :=
    ⟨rfl, by rw [hordinal]; exact hle, hsize⟩
  obtain ⟨g', hinv', hm', _, hnew⟩ := hcreated.ranged.inv.createSegment_inv hcreated.ranged.sound
    hcreated.ranged.master (fun _ => hclear) hcreate
  have hranged := hcreated.ranged.created haddr
    (fun _ => ⟨Nat.mul_mod_left _ _, hrecordable, hclear⟩) hinv' hm' hnew
  obtain ⟨hok, _⟩ | ⟨_, hsegment, _⟩ := hnew
  · cases hok
  have hlive : g'.liveCount h = g.liveCount h + 1 := Layout.liveCount_new hsegment nofun
  obtain ⟨n₀, hfree, hentry⟩ := hsegment.entry
  have hon : r.On (g'.segment h n₀) := by
    rw [hentry, if_pos rfl, PageRange.On, Working.getKind_recorded, Working.start_recorded,
      Working.getLength_recorded, hordinal]
    exact ⟨nofun, by omega, by omega⟩
  have hother : ∀ n, n ≠ n₀ → g'.segment h n = g.segment h n := fun n hn => by
    rw [hentry, if_neg hn]
  refine ⟨g', hranged, ?_, by rw [hlive, hcreated.live, List.length_cons], fun n hkind => ?_,
    fun r' hr' => ?_⟩
  · rw [createSegment_count hcreate, if_pos rfl, hcreated.count]
    rfl
  · by_cases hn : n = n₀
    · rw [hn]
      exact ⟨r, List.mem_cons_self, hon⟩
    · rw [hother n hn] at hkind ⊢
      obtain ⟨r', hr', hon'⟩ := hcreated.mem n hkind
      exact ⟨r', List.mem_cons_of_mem r hr', hon'⟩
  · obtain rfl | hr' := List.mem_cons.mp hr'
    · exact ⟨n₀, hon⟩
    · obtain ⟨n, hon'⟩ := hcreated.listed r' hr'
      have hn : n ≠ n₀ := fun heq => hon'.1 (heq ▸ hfree)
      exact ⟨n, by rwa [hother n hn]⟩

/-- A range that is refused leaves everything as it was. -/
theorem skip (hcreated : Created g h m s done) (hnot : status ≠ .ok)
    (hcreate : s.createSegment h r.startAddr r.size r.accType = .ok (status, s')) :
    Created g h m s' done ∧ s'.dice = s.dice := by
  obtain ⟨g', hinv', hm', _, ⟨_, hcarried, rfl⟩ | ⟨hok, _⟩⟩ :=
    hcreated.ranged.inv.createSegment_inv hcreated.ranged.sound hcreated.ranged.master
      (fun hok => absurd hok hnot) hcreate
  · refine ⟨⟨⟨hinv', hcreated.ranged.sound, hm', hcreated.ranged.ranges⟩, ?_, hcreated.live,
      hcreated.mem, hcreated.listed⟩, ?_⟩
    · rw [createSegment_count hcreate, if_neg hnot, hcreated.count]
    · obtain ⟨p, hp, _, _⟩ := hcreated.ranged.inv.pcb_ok hcreated.ranged.master
      have hp' : (s.ksLockPage m).pcb h = .ok p := hp
      unfold createSegment newSegment at hcreate
      simp only [hp, ok_bind, hcreated.ranged.inv.masterTableLock_ok hcreated.ranged.master,
        hp'] at hcreate
      split at hcreate
      · cases hcreate
        rfl
      · split at hcreate
        · cases hcreate
          rw [pageUnlock_user]
          rfl
        · obtain ⟨_, _, hrest⟩ := bind_ok hcreate
          obtain ⟨_, _, hret⟩ := bind_ok hrest
          cases hret
          exact absurd rfl hnot
  · exact absurd hok hnot

/-- A range of all pages is the only one of its family. -/
theorem PageRange.alone {rs : List PageRange} (hsize : ¬ r.size < 2 ^ 14)
    (hfits : ∀ r' ∈ r :: rs, r'.Fits) (hapart : (r :: rs).Pairwise PageRange.Apart) : rs = [] := by
  cases rs with
  | nil => rfl
  | cons r' rs =>
      have hr := hfits r (by simp)
      have hr' := hfits r' (by simp)
      have hle := hr.le
      have hpos := hr'.pos
      have hle' := hr'.le
      have hdisjoint : r.Apart r' := List.rel_of_pairwise_cons hapart (by simp)
      unfold PageRange.Apart at hdisjoint
      omega

/-- What the calls for the ranges `rs` return, once those of `done` were made. -/
theorem createEach_returns : ∀ {rs done : List PageRange} {g : Layout} {s : KernelSystem},
    Created g h m s done → done.length + rs.length ≤ 192 →
    (∀ r ∈ done ++ rs, r.Fits) → (∀ r' ∈ done, ∀ r ∈ rs, r'.Apart r) →
    rs.Pairwise PageRange.Apart → (rs.map PageRange.size).sum ≤ s.dice.length →
    Meets (fun halt => halt.isExhausted = false) (fun r => (∀ status ∈ r.1, status = .ok) ↔
      (∀ r' ∈ done, ∀ r ∈ rs, r'.Passes r) ∧ rs.Pairwise PageRange.Passes)
      (createEach h rs s)
  | [], done, g, s, _, _, _, _, _, _ => meets_ok ⟨fun _ => ⟨nofun, .nil⟩, fun _ => nofun⟩
  | r :: rs, done, g, s, hcreated, hlength, hfits, hdone, hapart, hdice => by
      have hr : r.Fits := hfits r (by simp)
      have hdone' : ∀ r' ∈ done, r'.Fits ∧ r'.Apart r := fun r' hr' =>
        ⟨hfits r' (by simp [hr']), hdone r' hr' r (by simp)⟩
      rw [List.length_cons] at hlength
      rw [List.map_cons, List.sum_cons] at hdice
      have hclear := hcreated.clear hr hdone'
      have hsize : r.size ≤ 2 ^ 14 := by
        have hle := hr.le
        omega
      obtain ⟨n, hfree⟩ := Layout.exists_free (by rw [hcreated.live]; omega)
      unfold createEach
      cases hcall : s.createSegment h r.startAddr r.size r.accType with
      | error halt =>
          have hstops := hcreated.ranged.inv.createSegment_stops hcreated.ranged.sound
            hcreated.ranged.master hfree hsize hclear (by omega) hcall
          exact meets_error (by simp [hstops])
      | ok result =>
          obtain ⟨status, s₁⟩ := result
          have hstatus := (hcreated.ranged.inv.createSegment_status hcreated.ranged.master
            hcall).trans (hcreated.accepts_iff (by omega) hr hdone')
          rw [ok_bind]
          by_cases hok : status = .ok
          · subst status
            have hpasses := hstatus.mp rfl
            by_cases hsmall : r.size < 2 ^ 14
            · obtain ⟨g', hcreated'⟩ := hcreated.step hr hsmall hdone' hcall
              have hrolls := hcreated.ranged.inv.createSegment_dice hcreated.ranged.sound
                hcreated.ranged.master hsize hclear hcall
              obtain ⟨hfirst, hrest⟩ := List.pairwise_cons.mp hapart
              refine (createEach_returns hcreated' (by rw [List.length_cons]; omega)
                (fun x hx => hfits x (by grind)) (fun r' hr' x hx => ?_) hrest (by omega)).bind
                fun ⟨statuses, s₂⟩ hiff => meets_ok ?_
              · obtain rfl | hr' := List.mem_cons.mp hr'
                · exact hfirst x hx
                · exact hdone r' hr' x (by simp [hx])
              · rw [List.forall_mem_cons, List.pairwise_cons]
                grind
            · obtain rfl := PageRange.alone hsmall (fun x hx => hfits x (by grind)) hapart
              exact meets_ok (by simpa using hpasses)
          · obtain ⟨hcreated', hsame⟩ := hcreated.skip hok hcall
            refine (createEach_returns hcreated' (by omega) (fun x hx => hfits x (by grind))
              (fun r' hr' x hx => hdone r' hr' x (by simp [hx])) (List.pairwise_cons.mp hapart).2
              (by rw [hsame]; omega)).bind fun ⟨statuses, s₂⟩ _ =>
                meets_ok ⟨fun hall => ?_, fun hall => ?_⟩
            · exact absurd (hall status (by simp)) hok
            · exact absurd (hstatus.mpr fun r' hr' => hall.1 r' hr' r (by simp)) hok

/-- A new process has no segments. -/
theorem start {before start : KernelSystem} (hcons : before.Consistent)
    (hcreate : before.createProcess = .ok (h, start)) : ∃ g m, Created g h m start [] := by
  obtain ⟨g₀, hinv₀, hsound₀⟩ := hcons
  obtain ⟨g, m, hinv, hm, hcarried, _, hslots, hfree⟩ := hinv₀.createProcess_inv hsound₀ hcreate
  refine ⟨g, m, ⟨hinv, hcarried.sound hsound₀, hm, .of_new hinv hslots hfree⟩, ?_, ?_,
    fun n hkind => absurd (hfree n) hkind, nofun⟩
  · obtain ⟨⟨h', page, s₁⟩, hnew, hret⟩ := bind_ok hcreate
    cases hret
    obtain ⟨⟨h'', s₂⟩, _, hrest⟩ := bind_ok hnew
    obtain ⟨⟨page', s₃⟩, _, hrest⟩ := bind_ok hrest
    obtain ⟨s₄, hset, hret⟩ := bind_ok hrest
    cases hret
    obtain ⟨p, _, hret⟩ := bind_ok hset
    cases hret
    simp [KernelSystem.count, ksFtUpdate, KernelSystem.setPcb]
  · simp [Layout.liveCount, hfree]

end Created

/-- Disjoint ranges, one after the other, on a new process: a call stops only where the disk
is full or every frame is locked, and every call returns OK just when each range that lies
in front of an earlier one is as far from it as the overlap test wants it. -/
theorem disjoint_ranges_created {h : Nat} {before start : KernelSystem} {rs : List PageRange}
    (hcons : before.Consistent) (hcreate : before.createProcess = .ok (h, start))
    (hlength : rs.length ≤ 192) (hfits : ∀ r ∈ rs, r.Fits)
    (hapart : rs.Pairwise PageRange.Apart)
    (hdice : (rs.map PageRange.size).sum ≤ start.dice.length) :
    (∀ halt, createEach h rs start = .error halt → halt.isExhausted = true) ∧
      ∀ statuses s, createEach h rs start = .ok (statuses, s) →
        ((∀ status ∈ statuses, status = .ok) ↔ rs.Pairwise PageRange.Passes) := by
  obtain ⟨g, m, hcreated⟩ := Created.start hcons hcreate
  have hreturns := hcreated.createEach_returns (by simpa using hlength) (by simpa using hfits)
    nofun hapart hdice
  refine ⟨fun halt herror => ?_, fun statuses s hok => ?_⟩
  · by_contra hnot
    exact hreturns.not_error (by simpa using hnot) herror
  · simpa using hreturns.ok hok

/-- One range behind another, and one far in front of both. -/
theorem disjoint_ranges_created_three : ∃ (start s : KernelSystem) (statuses : List Status),
    createEach 0 [⟨2000, 1, .read⟩, ⟨2001, 2, .write⟩, ⟨1, 1, .execute⟩] start =
      .ok (statuses, s) ∧ ∀ status ∈ statuses, status = .ok := by
  have hruns : (KernelOp.runFirst KernelOp.anyStep 1 4 4 [0, 0, 0, 0] []).any (fun r =>
      decide (r.2.1 = 0) && decide (r.2.2.1.dice.length = 4) &&
        Outcome.holds (createEach 0 [⟨2000, 1, .read⟩, ⟨2001, 2, .write⟩, ⟨1, 1, .execute⟩]
          r.2.2.1) fun _ => true) = true := by
    decide +kernel
  obtain ⟨⟨before, h, start, s⟩, hr, hcheck⟩ := (Option.any_eq_true _ _).mp hruns
  simp only [Bool.and_eq_true, decide_eq_true_eq] at hcheck
  obtain ⟨⟨rfl, hdice⟩, hcalls⟩ := hcheck
  obtain ⟨hboot, hcreate, _⟩ := KernelOp.runFirst_run hr
  obtain ⟨⟨statuses, s'⟩, hcalls, _⟩ := Outcome.of_holds hcalls
  have hcons : before.Consistent :=
    ⟨_, boot_inv (by decide) (by decide) hboot, Layout.sound_none⟩
  refine ⟨start, s', statuses, hcalls, ((disjoint_ranges_created hcons hcreate (by decide)
    (by decide) ?_ (by rw [hdice]; decide)).2 statuses s' hcalls).mpr ?_⟩
  · simp [PageRange.Apart]
  · simp [PageRange.Passes, pageSize]

/-- A page in front of one that is there already is refused. -/
theorem disjoint_ranges_refused : ¬ ∀ (h : Nat) (before start s : KernelSystem)
    (rs : List PageRange) (statuses : List Status), before.Consistent →
    before.createProcess = .ok (h, start) → rs.length ≤ 192 → (∀ r ∈ rs, r.Fits) →
    rs.Pairwise PageRange.Apart → createEach h rs start = .ok (statuses, s) →
    ∀ status ∈ statuses, status = .ok := by
  intro hall
  have hruns : (KernelOp.runFirst KernelOp.anyStep 1 4 4 [0, 0] []).any (fun r =>
      Outcome.holds (createEach r.2.1 [⟨2, 1, .read⟩, ⟨1, 1, .read⟩] r.2.2.1) fun r' =>
        decide (r'.1 = [.ok, .trap])) = true := by
    decide +kernel
  obtain ⟨⟨before, h, start, s⟩, hr, hcalls⟩ := (Option.any_eq_true _ _).mp hruns
  obtain ⟨hboot, hcreate, _⟩ := KernelOp.runFirst_run hr
  obtain ⟨⟨statuses, s'⟩, hcalls, hstatuses⟩ := Outcome.of_holds hcalls
  obtain rfl : statuses = [.ok, .trap] := of_decide_eq_true hstatuses
  have hcons : before.Consistent :=
    ⟨_, boot_inv (by decide) (by decide) hboot, Layout.sound_none⟩
  have htrap := hall h before start s' _ _ hcons hcreate (by decide) (by decide) ?_ hcalls
    .trap (by decide)
  · cases htrap
  · simp [PageRange.Apart]

end VirtualMemory
