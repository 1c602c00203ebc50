import VirtualMemory.KernelMoves
import VirtualMemory.UserMachine

/-!
# Kernel paging keeps the invariant

`ks_swap_out` of a page table and of a master table, the choice of a victim, and the ways
a frame is taken into the caller's hands and turned into a table.
-/

namespace VirtualMemory

open Function UserSpace KernelSystem

/-- What `ks_swap_out` makes of the first level entry of a page table. -/
def PageTableL1Entry.swappedOut (e : PageTableL1Entry) (cn : Nat) : PageTableL1Entry :=
  { e with blockDisk := BitVec.ofNat 16 cn, status := PageTableL1Entry.statusPagedOut }

/-- The first level entry of a page table that was put into a frame. -/
def PageTableL1Entry.placedIn (e : PageTableL1Entry) (page : Nat) : PageTableL1Entry :=
  { e with blockDisk := BitVec.ofNat 16 page, status := PageTableL1Entry.statusPresent }

theorem l1Agrees_swappedOut (e : PageTableL1Entry) {c : Nat} (hc : c < maxClusters) :
    L1Agrees (.cluster c) (e.swappedOut c) := by
  refine ⟨rfl, ?_⟩
  unfold maxClusters at hc
  simp only [PageTableL1Entry.block, PageTableL1Entry.swappedOut, BitVec.toNat_ofNat]
  omega

theorem l1Agrees_placedIn (e : PageTableL1Entry) {f : Nat} (hf : f < 65536) :
    L1Agrees (.frame f) (e.placedIn f) := by
  refine ⟨rfl, ?_⟩
  simp only [PageTableL1Entry.block, PageTableL1Entry.placedIn, BitVec.toNat_ofNat]
  omega

section Children

variable {V E : Type} [DecidableEq V] {ext : E → Nat → Prop} {w : PageView V KAddr}
  {us us' : UserSpace KAddr} {f : Nat}

/-- One descriptor of the loop: afterwards it is not that of a resident page. -/
theorem pageTableEvictChild_inv (hinv : UserInv w noHand ext us) {v : V} {i : Nat}
    (hi : i < 256) (hv : w.addr v = some ⟨f, ⟨i, hi⟩⟩)
    (h : pageTableEvictChild f us i = .ok us') :
    ∃ w', UserInv w' noHand ext us' ∧ Paged ext w us w' us' ∧ ¬ (w'.desc v).Resident ∧
      ∀ u, u ≠ v → w'.desc u = w.desc u := by
  have hlink := hinv.frames.link v _ hv
  unfold pageTableEvictChild at h
  simp only [KAddr.index_page f hi, hlink] at h
  split at h
  · rename_i hshared
    cases h
    exact ⟨w, hinv, .refl .., fun hr => by simp [hr.1] at hshared, fun _ _ => rfl⟩
  · rename_i hshared
    split at h
    · rename_i hvalid
      have hr : (w.desc v).Resident := ⟨by simpa using hshared, hvalid⟩
      obtain ⟨cn, a, _, hinv', hpaged, _⟩ := usSwapOut_inv hinv hr rfl rfl (fun _ => rfl) h
      refine ⟨_, hinv', hpaged, ?_, fun u hu => PageView.put_desc_of_ne _ hu _ _⟩
      rw [PageView.put_desc_self]
      exact resident_swappedOut _ _
    · rename_i hvalid
      cases h
      exact ⟨w, hinv, .refl .., fun hr => hvalid hr.2, fun _ _ => rfl⟩

/-- After `page_table_evict_children` no page of the table is resident, and the descriptors of
other tables are what they were. -/
theorem pageTableEvictChildren_inv (hinv : UserInv w noHand ext us)
    (hpage : ∀ i : Fin 256, ∃ v, w.addr v = some ⟨f, i⟩)
    (h : pageTableEvictChildren us f = .ok us') :
    ∃ w', UserInv w' noHand ext us' ∧ Paged ext w us w' us' ∧
      (∀ v i, w.addr v = some ⟨f, i⟩ → ¬ (w'.desc v).Resident) ∧
      ∀ u, (∀ i, w.addr u ≠ some ⟨f, i⟩) → w'.desc u = w.desc u := by
  let I : List Nat → UserSpace KAddr → Prop := fun rest u =>
    (∀ i ∈ rest, i < 256) ∧ ∃ w', UserInv w' noHand ext u ∧ Paged ext w us w' u ∧
      (∀ v i, w.addr v = some ⟨f, i⟩ → i.val ∉ rest → ¬ (w'.desc v).Resident) ∧
      ∀ u, (∀ i, w.addr u ≠ some ⟨f, i⟩) → w'.desc u = w.desc u
  have hstep : ∀ i rest u u', I (i :: rest) u → pageTableEvictChild f u i = .ok u' → I rest u' := by
    rintro i rest u u' ⟨hlt, w₁, hinv₁, hpaged₁, hdone, hothers⟩ hi
    obtain ⟨v, hv⟩ := hpage ⟨i, hlt i (by simp)⟩
    obtain ⟨w₂, hinv₂, hpaged₂, hv₂, hothers₂⟩ :=
      pageTableEvictChild_inv hinv₁ (hlt i (by simp)) (by rw [hpaged₁.addr, hv]) hi
    refine ⟨fun j hj => hlt j (by simp [hj]), w₂, hinv₂, hpaged₁.trans hpaged₂, ?_,
      fun u' hu' => (hothers₂ u' fun huv => hu' _ (huv ▸ hv)).trans (hothers u' hu')⟩
    intro v' j hj hnot
    by_cases hji : j.val = i
    · have : v' = v := hinv.frames.addr_inj v' v _ hj (by rw [hv]; simp [← hji])
      rwa [this]
    · intro hr
      have hold := hdone v' j hj (by simp [hji, hnot])
      rw [(hpaged₂.kept v').desc_eq hold] at hr
      exact hold hr
  have hstart : I (List.range pageTableSizeL2) us := by
    refine ⟨fun i hi => by simpa [pageTableSizeL2] using hi, w, hinv, .refl .., ?_,
      fun _ _ => rfl⟩
    intro v i _ hnot
    exact absurd (by simp [pageTableSizeL2]) hnot
  obtain ⟨_, w', hinv', hpaged, hdone, hothers⟩ := Outcome.foldlM_ok I hstep hstart h
  exact ⟨w', hinv', hpaged, fun v i hv => hdone v i hv (by simp), hothers⟩

end Children

/-- The place of a page table whose entry is marked as paged out. -/
def Place.marked : Place → Place
  | .gone => .lost
  | p => p

/-- What swapping out a master table does to the places of its page tables. -/
def Place.Swapped : Place → Place → Prop
  | .frame _, p => ∃ c, p = .cluster c
  | .cluster c, p => p = .cluster c
  | .gone, p | .lost, p => p = .lost

/-- The tables that leave memory with what is in frame `k`: the table there, and with a
master table those of its process. -/
def Layout.WithFrame (g : Layout) (k : Nat) (t : KTable) : Prop :=
  g.place t = .frame k ∨ ∃ h slot, t = .table h slot ∧ g.place (.master h) = .frame k

/-- The frame that `ks_acquire_page` would evict. -/
def KernelSystem.victimFrame (s : KernelSystem) : Option Nat :=
  if s.ksEmpty = [] then s.ksGetVictim.toOption.map fun r => r.1.ordinal else none

/-- The tables that make room for another one. -/
def MakesRoom (g : Layout) (s : KernelSystem) (t : KTable) : Prop :=
  ∃ k ∈ s.victimFrame, g.WithFrame k t

namespace Layout

variable {g : Layout} {hand handC : Nat → Prop} {s : KernelSystem} {h : Nat} {slot : Fin 64}
  {k : Nat} {t : KTable}

theorem withFrame_master (hinv : KernelInv g hand handC s) (hk : g.place (.master h) = .frame k) :
    g.WithFrame k t ↔ t = .master h ∨ ∃ slot, t = .table h slot := by
  constructor
  · rintro (ht | ⟨h', slot, rfl, hm⟩)
    · exact .inl (hinv.frame_inj ht hk)
    · cases hinv.frame_inj hm hk
      exact .inr ⟨slot, rfl⟩
  · rintro (rfl | ⟨slot, rfl⟩)
    · exact .inl hk
    · exact .inr ⟨h, slot, rfl, hk⟩

theorem withFrame_table (hinv : KernelInv g hand handC s)
    (hk : g.place (.table h slot) = .frame k) : g.WithFrame k t ↔ t = .table h slot := by
  constructor
  · rintro (ht | ⟨h', slot', rfl, hm⟩)
    · exact hinv.frame_inj ht hk
    · cases hinv.frame_inj hm hk
  · rintro rfl
    exact .inl hk

end Layout

namespace KernelInv

variable {g : Layout} {hand hand' handC handC' : Nat → Prop} {s s' : KernelSystem}
  {h : Nat} {slot : Fin 64} {k m c f : Nat}

/-- The end of the swap-out of a page table without resident pages. -/
theorem swapOutTable (hinv : KernelInv g hand handC s)
    (hk : g.place (.table h slot) = .frame k) (hm : g.place (.master h) = .frame m)
    (hidle : ∀ i, ¬ (g.desc ⟨h, slot, i⟩).Resident) (hc : handC c)
    (hhandC : ∀ x, handC' x ↔ handC x ∧ x ≠ c) :
    KernelInv (g.move h slot (.cluster c) ((s.ptl1 ⟨m, slotCell slot⟩).swappedOut c)) hand handC'
      ((s.setPtl1 ⟨m, slotCell slot⟩ ((s.ptl1 ⟨m, slotCell slot⟩).swappedOut c)).ksSwapFinish
        k c true) := by
  have hkm : k ≠ m := by
    rintro rfl
    cases hinv.frame_inj hk hm
  have hclt : c < maxClusters := hinv.cluster_lt (r := .hand c) ⟨hc, rfl⟩
  refine hinv.move hm ?_ ?_ ?_ ?_ ?_ ?_
  · refine ⟨l1Agrees_swappedOut _ hclt, hidle, ?_, ?_, ?_, ?_, nofun, rfl, rfl, rfl, rfl, rfl⟩
    · funext i
      have hne : (⟨k, i⟩ : KAddr) ≠ ⟨m, slotCell slot⟩ := by simp [hkm]
      simp [imageAt, ksSwapFinish, withUser, setPtl1, setPte, diskPut, krnlPage, ksFreePage, hne,
        hinv.mem_eq hk]
    · intro i
      by_cases hi : i = slotCell slot
      · simp [ksSwapFinish, withUser, setPtl1, setPte, diskPut, ksFreePage, hi]
      · simp [ksSwapFinish, withUser, setPtl1, setPte, diskPut, ksFreePage, hi, hinv.mem_eq hm]
    · intro t ht htm
      cases hpl : g.place t with
      | frame f =>
          have hfm : f ≠ m := by
            rintro rfl
            exact htm (hinv.frame_inj hpl hm)
          funext i
          simp [imageAt, ksSwapFinish, withUser, setPtl1, setPte, diskPut, ksFreePage, hfm]
      | cluster x =>
          have hxc := hinv.table_cluster_ne hc hpl
          simp [imageAt, ksSwapFinish, withUser, setPtl1, setPte, diskPut, ksFreePage, hxc]
      | gone | lost => rfl
    · intro t f ht hf
      have hfk : f ≠ k := by
        rintro rfl
        exact ht (hinv.frame_inj hf hk)
      simp [ksSwapFinish, withUser, setPtl1, setPte, diskPut, ksFreePage, hfk]
  · exact hinv.clusters_settle hc hhandC (by simp [hk]) (by simp)
      (fun u hu => Layout.move_place_of_ne hu)
  · intro v x hx
    have hxc := hinv.page_cluster_ne (r := .hand c) ⟨hc, rfl⟩ hx
    simp [ksSwapFinish, withUser, setPtl1, setPte, diskPut, ksFreePage, hxc]
  · exact hinv.nodup_concat hk
  · exact hinv.frames_give hk (by simp) (fun u hu => Layout.move_place_of_ne hu)
  · intro x hx
    by_cases hxk : x = k
    · exact hxk ▸ hinv.hasFrame hk
    · simp only [ksSwapFinish, ksFreePage, update_of_ne hxk] at hx
      exact hinv.typed x hx

/-- Clusters that no page holds are nothing to the pages. -/
theorem kept_of_disk (husr : s'.userspc = s.userspc)
    (hdisk : ∀ v, (g.desc v).PagedOut → s'.disk (g.desc v).block = s.disk (g.desc v).block)
    (v : LPage) : Kept s.toUserSpace (g.desc v) s'.toUserSpace (g.desc v) :=
  ⟨.inl rfl, content_of_eq (fun _ => by rw [husr]) (hdisk v)⟩

/-- After the children of a page table were evicted none of its pages is resident; the tables
are where they were, and the other page tables contain what they did. -/
theorem evictChildren (hinv : KernelInv g hand handC s) (hk : g.place (.table h slot) = .frame k)
    (hevict : s.onUser (pageTableEvictChildren · k) = .ok s') :
    ∃ w' : PageView LPage KAddr, KernelInv (g.withDesc w'.desc) hand handC s' ∧
      Evicted (fun _ => False) g s (g.withDesc w'.desc) s' ∧
      (∀ i, ¬ (w'.desc ⟨h, slot, i⟩).Resident) ∧
      ∀ v : LPage, KTable.table v.proc v.slot ≠ .table h slot → w'.desc v = g.desc v := by
  obtain ⟨us', hus, hs'⟩ := Outcome.bind_ok hevict
  cases hs'
  obtain ⟨w', huser, hpaged, hidle, hothers⟩ := pageTableEvictChildren_inv hinv.user
    (fun i => ⟨⟨h, slot, i⟩, Layout.addr_of_frame hk i⟩) hus
  refine ⟨w', hinv.paged huser hpaged nofun, ?_, fun i =>
    hidle _ i (Layout.addr_of_frame hk i), fun v hv => hothers v fun i hi => ?_⟩
  swap
  · exact hv (hinv.frame_inj (Layout.addr_eq_some.mp hi).1 hk)
  exact ⟨⟨hpaged.kept, fun _ _ => rfl, nofun, fun _ _ _ => rfl, fun _ _ => rfl,
    ⟨rfl, rfl, hpaged.userspcSize, hpaged.diskSize, fun _ => rfl, rfl, rfl, rfl, rfl, rfl, rfl,
      rfl⟩⟩, nofun, fun _ _ => .inl, nofun, fun _ _ hc => hc⟩

/-- `ks_swap_out` of a page table, from the `switch` on. -/
theorem swapOwner_table {evict : KernelSystem → Nat → Except Halt KernelSystem}
    (hinv : KernelInv g hand handC s) (hk : g.place (.table h slot) = .frame k) (hc : handC c)
    (hhandC : ∀ x, handC' x ↔ handC x ∧ x ≠ c) (hown : s.ksSwapOwner evict k c = .ok s') :
    ∃ g', KernelInv g' hand handC' (s'.ksSwapFinish k c true) ∧
      Evicted (· = .table h slot) g s g' (s'.ksSwapFinish k c true) ∧
      g'.place (.table h slot) = .cluster c ∧
      (s'.ksSwapFinish k c true).ksEmpty = s.ksEmpty ++ [k] ∧
      ∀ v : LPage, KTable.table v.proc v.slot ≠ .table h slot → g'.desc v = g.desc v := by
  obtain ⟨htype, m, hm, howner⟩ := hinv.tables h slot k hk
  unfold ksSwapOwner at hown
  simp only [htype, howner] at hown
  obtain ⟨s₁, hchildren, hown⟩ := Outcome.bind_ok hown
  cases hown
  obtain ⟨w', hinv₁, hevicted, hidle, hothers⟩ := hinv.evictChildren hk hchildren
  have hempty : s₁.ksEmpty = s.ksEmpty := by
    obtain ⟨us', _, hs₁⟩ := Outcome.bind_ok hchildren
    cases hs₁
    rfl
  have hinv₂ := hinv₁.swapOutTable hk hm hidle hc hhandC
  have hswapped : Evicted (· = .table h slot) (g.withDesc w'.desc) s₁
      ((g.withDesc w'.desc).move h slot (.cluster c) ((s₁.ptl1 ⟨m, slotCell slot⟩).swappedOut c))
      ((s₁.setPtl1 ⟨m, slotCell slot⟩ ((s₁.ptl1 ⟨m, slotCell slot⟩).swappedOut c)).ksSwapFinish
        k c true) := by
    refine ⟨⟨fun v => ?_, fun t ht => Layout.move_place_of_ne ht, ?_, ?_, ?_, ?_⟩, ?_, ?_, nofun,
      ?_⟩
    · rw [Layout.move_desc]
      refine kept_of_disk ?_ (fun v hp => ?_) v
      · rfl
      · have hxc := hinv₁.page_cluster_ne (r := .hand c) ⟨hc, rfl⟩ (v := v) (.inr ⟨hp, rfl⟩)
        exact update_of_ne hxc _ _
    · rintro t rfl f
      simp
    · intro t f hf
      have hfk : f ≠ k := by
        rintro rfl
        have hfree : f ∈ s₁.ksEmpty ++ [f] := by simp
        exact hinv₂.frames.not_free (r := .table t) hf hfree
      simp [ksSwapFinish, withUser, setPtl1, setPte, diskPut, ksFreePage, hfk]
    · intro h' n
      by_cases hh : h' = h
      · subst h'
        rw [Layout.move_cells_self, update_of_ne (slotCell_ne_segCell slot n).symm]
      · rw [Layout.move_cells_master_of_ne hh]
    · exact ⟨rfl, rfl, rfl, rfl, fun _ => rfl, rfl, rfl, rfl, rfl, rfl, rfl, rfl⟩
    · rintro h' slot' ⟨⟩
      exact .inl ⟨k, m, hk, hm⟩
    · intro h' slot' hlost
      by_cases ht : KTable.table h' slot' = .table h slot
      · rw [ht, Layout.move_place_self] at hlost
        cases hlost
      · rw [Layout.move_place_of_ne ht] at hlost
        exact .inl hlost
    · intro t x hx
      have ht : t ≠ .table h slot := by
        rintro rfl
        cases hx.symm.trans hk
      rwa [Layout.move_place_of_ne ht]
  refine ⟨_, hinv₂, ?_, by simp, ?_, fun v hv => ?_⟩
  · have htrans := hevicted.trans hswapped
    simp only [false_or] at htrans
    exact htrans
  · rw [← hempty]
    rfl
  · rw [Layout.move_desc, Layout.withDesc_desc, hothers v hv]

theorem acquireCluster {us : UserSpace KAddr} (hinv : KernelInv g hand handC s)
    (hacquire : s.dvtAcquireCluster = some (c, us)) (hhandC : ∀ x, handC' x ↔ handC x ∨ x = c) :
    KernelInv g hand handC' (s.withUser us) ∧ Evicted (fun _ => False) g s g (s.withUser us) ∧
      ¬ handC c := by
  obtain ⟨hfree, rfl⟩ := dvtAcquireCluster_some hacquire
  have hnot : ¬ handC c := fun hc =>
    hinv.user.clusters.ledger.not_free (r := .ext (.hand c)) ⟨hc, rfl⟩ hfree
  refine ⟨⟨?_, hinv.krnl_le, hinv.nodup, hinv.frames, hinv.typed, hinv.image, hinv.entries,
    hinv.tables, hinv.masters, hinv.stored, hinv.newborn, hinv.live, hinv.fresh⟩,
    .quiet g (fun _ => rfl) rfl
      ⟨rfl, rfl, rfl, rfl, fun _ => rfl, rfl, rfl, rfl, rfl, rfl, rfl, rfl⟩, hnot⟩
  refine hinv.user.relocate rfl (fun _ _ => rfl) hinv.user.frames.link
    hinv.user.frames.addr_inj rfl ?_ (fun _ _ _ => rfl)
  refine hinv.user.clusters.ledger.take (r := .ext (.hand c)) hfree ?_ ?_ ?_ ?_
  · rintro x ⟨hx, rfl⟩
    exact hnot hx
  · intro x
    by_cases hx : x = c <;> simp [dvtMark, withUser, hx]
  · intro x
    simp only [clusterHolds, clusterOf, hhandC]
    exact ⟨fun hx => hx.2.symm, fun hx => ⟨.inr trivial, hx.symm⟩⟩
  · rintro (v | u | n) x hne
    · rfl
    · rfl
    · have hn : n ≠ c := fun heq => hne (by rw [heq])
      simp [clusterHolds, clusterOf, hhandC, hn]

theorem ksSwapOut_ok {depth : Nat} {victim : Victim} (hswap : ksSwapOut depth s victim = .ok s') :
    ∃ d cn writeBack s₁ s₂, depth = d + 1 ∧
      s.ksSwapCluster victim = .ok (cn, writeBack, s₁) ∧
      s₁.ksSwapOwner (ksEvictWith (ksSwapOut d)) victim.ordinal cn = .ok s₂ ∧
      s' = s₂.ksSwapFinish victim.ordinal cn writeBack := by
  cases depth with
  | zero => cases hswap
  | succ d =>
      obtain ⟨⟨cn, writeBack, s₁⟩, hcluster, hswap⟩ := Outcome.bind_ok hswap
      obtain ⟨s₂, howner, hswap⟩ := Outcome.bind_ok hswap
      cases hswap
      exact ⟨d, cn, writeBack, s₁, s₂, rfl, hcluster, howner, rfl⟩

/-- The swap-out of a page that has no cluster yet starts with one from the vacancy table. -/
theorem ksSwapOut_acquired {depth : Nat} {victim : Victim} (hinv : KernelInv g hand noHand s)
    (hnull : victim.cluster = nullCluster) (hswap : ksSwapOut depth s victim = .ok s') :
    ∃ d c us s₂, s.dvtAcquireCluster = some (c, us) ∧
      KernelInv g hand (· = c) (s.withUser us) ∧
      Evicted (fun _ => False) g s g (s.withUser us) ∧
      (s.withUser us).ksSwapOwner (ksEvictWith (ksSwapOut d)) victim.ordinal c = .ok s₂ ∧
      s' = s₂.ksSwapFinish victim.ordinal c true := by
  obtain ⟨d, cn, writeBack, s₁, s₂, rfl, hcluster, howner, rfl⟩ := ksSwapOut_ok hswap
  simp only [ksSwapCluster, if_pos hnull] at hcluster
  cases hacquire : s.dvtAcquireCluster with
  | none => simp [hacquire] at hcluster
  | some r =>
      obtain ⟨c, us⟩ := r
      simp only [hacquire, Except.ok.injEq, Prod.mk.injEq] at hcluster
      obtain ⟨rfl, rfl, rfl⟩ := hcluster
      obtain ⟨hinv₁, hevicted₁, _⟩ := hinv.acquireCluster hacquire
        (fun x => (by simp [noHand] : x = c ↔ noHand x ∨ x = c))
      exact ⟨d, c, us, s₂, rfl, hinv₁, hevicted₁, howner, rfl⟩

/-- `ks_evict_page` of a page table. -/
theorem evictTable {d : Nat} (hinv : KernelInv g hand handC s)
    (hk : g.place (.table h slot) = .frame k)
    (hevict : ksEvictWith (ksSwapOut d) s k = .ok s') :
    ∃ g' c, KernelInv g' hand handC s' ∧ Evicted (· = .table h slot) g s g' s' ∧
      g'.place (.table h slot) = .cluster c ∧
      ∀ v : LPage, KTable.table v.proc v.slot ≠ .table h slot → g'.desc v = g.desc v := by
  unfold ksEvictWith at hevict
  cases hacquire : s.dvtAcquireCluster with
  | none => simp [hacquire] at hevict
  | some r =>
      obtain ⟨c, us⟩ := r
      simp only [hacquire] at hevict
      obtain ⟨d', cn, writeBack, s₁, s₂, _, hcluster, howner, rfl⟩ := ksSwapOut_ok hevict
      obtain ⟨hinv₁, hevicted₁, hnot⟩ :=
        hinv.acquireCluster hacquire (fun x => Iff.rfl (a := handC x ∨ x = c))
      have hc : c < maxClusters := hinv₁.cluster_lt (r := .hand c) ⟨.inr rfl, rfl⟩
      have hnull : c ≠ nullCluster := by
        unfold maxClusters at hc
        unfold nullCluster
        omega
      simp only [ksSwapCluster, if_neg hnull, Except.ok.injEq, Prod.mk.injEq] at hcluster
      obtain ⟨rfl, rfl, rfl⟩ := hcluster
      obtain ⟨g', hinv', hevicted, hplace, _, hothers⟩ := hinv₁.swapOwner_table hk (.inr rfl)
        (fun x => (by grind : handC x ↔ (handC x ∨ x = c) ∧ x ≠ c)) howner
      refine ⟨g', c, hinv', ?_, hplace, hothers⟩
      have htrans := hevicted₁.trans hevicted
      simp only [false_or] at htrans
      exact htrans

/-- The status `PagedOut` is written into the entry of a page table that is not in memory,
whether there is one or not. -/
theorem markSlot (hinv : KernelInv g hand handC s) (hm : g.place (.master h) = .frame m)
    (hnot : ∀ f, g.place (.table h slot) ≠ .frame f) :
    KernelInv (g.move h slot (g.place (.table h slot)).marked
        { s.ptl1 ⟨m, slotCell slot⟩ with status := PageTableL1Entry.statusPagedOut }) hand handC
      (s.setPtl1 ⟨m, slotCell slot⟩
        { s.ptl1 ⟨m, slotCell slot⟩ with status := PageTableL1Entry.statusPagedOut }) := by
  have hagree := hinv.agrees hm slot
  have hmarked : ∀ u x, u = .table h slot → (g.place u).marked ≠ .frame x := by
    rintro u x rfl
    cases hpl : g.place (.table h slot) with
    | frame f => exact absurd hpl (hnot f)
    | cluster c => simp [Place.marked]
    | gone | lost => simp [Place.marked]
  have hcluster : ∀ p x, Place.marked p = .cluster x ↔ p = .cluster x := by
    intro p x
    cases p <;> simp [Place.marked]
  refine hinv.move hm ⟨?_, ?_, ?_, ?_, ?_, fun _ _ _ _ => rfl, ?_, rfl, rfl, rfl, rfl, rfl⟩ ?_
    (fun _ _ _ => rfl) hinv.nodup ?_ hinv.typed
  · cases hpl : g.place (.table h slot) with
    | frame f => exact absurd hpl (hnot f)
    | cluster c =>
        rw [hpl] at hagree
        exact ⟨rfl, hagree.2⟩
    | gone | lost => exact rfl
  · intro i hr
    obtain ⟨f, hf⟩ := hinv.resident_frame hr
    exact hnot f hf
  · rw [← hinv.image (.table h slot)]
    cases hpl : g.place (.table h slot) with
    | frame f => exact absurd hpl (hnot f)
    | cluster c => rfl
    | gone | lost => rfl
  · intro i
    by_cases hi : i = slotCell slot
    · simp [setPtl1, setPte, KernelSystem.withUser, hi]
    · simp [setPtl1, setPte, KernelSystem.withUser, hi, hinv.mem_eq hm]
  · intro t ht htm
    cases hpl : g.place t with
    | frame f =>
        have hfm : f ≠ m := by
          rintro rfl
          exact htm (hinv.frame_inj hpl hm)
        funext i
        simp [imageAt, setPtl1, setPte, KernelSystem.withUser, hfm]
    | cluster x => rfl
    | gone | lost => rfl
  · intro f hf
    exact absurd hf (hmarked _ f rfl)
  · refine hinv.clusters_same fun u x => ?_
    by_cases hu : u = .table h slot
    · subst u
      rw [Layout.move_place_self, hcluster]
    · rw [Layout.move_place_of_ne hu]
  · refine hinv.frames_same fun u x => ?_
    by_cases hu : u = .table h slot
    · subst u
      rw [Layout.move_place_self]
      exact iff_of_false (hmarked _ x rfl) (hnot x)
    · rw [Layout.move_place_of_ne hu]

/-- Writing the entry of a page table moves that page table alone. -/
theorem left_setPtl1 {pl : Place} (hpl : ∀ f, pl ≠ .frame f) (e : PageTableL1Entry) (a : KAddr) :
    Left (· = .table h slot) g s (g.move h slot pl e) (s.setPtl1 a e) := by
  refine ⟨fun v => ?_, fun t ht => Layout.move_place_of_ne ht, ?_, fun _ _ _ => rfl, ?_,
    ⟨rfl, rfl, rfl, rfl, fun _ => rfl, rfl, rfl, rfl, rfl, rfl, rfl, rfl⟩⟩
  · rw [Layout.move_desc]
    exact .refl _ _
  · rintro t rfl f
    rw [Layout.move_place_self]
    exact hpl f
  · intro h' n
    by_cases hh : h' = h
    · subst h'
      rw [Layout.move_cells_self, update_of_ne (slotCell_ne_segCell slot n).symm]
    · rw [Layout.move_cells_master_of_ne hh]

/-- The end of the swap-out of a master table without page tables in memory. -/
theorem swapOutMaster {p : KernelProcess} (hinv : KernelInv g hand handC s)
    (hm : g.place (.master h) = .frame m) (halone : ∀ slot f, g.place (.table h slot) ≠ .frame f)
    (hc : handC c) (hhandC : ∀ x, handC' x ↔ handC x ∧ x ≠ c) :
    KernelInv (g.moveMaster h (.cluster c) (g.cells (.master h))) hand handC'
      ((s.setPcb h { p with mtDisk := c, masterTableValid := false }).ksSwapFinish m c true) := by
  refine hinv.moveMaster ?_ ?_ ?_ (hinv.nodup_concat hm) ?_ ?_
  · refine ⟨halone, ?_, rfl, ?_, ?_, ?_, nofun, ?_, nofun, ?_, ?_, ?_, Nat.le_refl _, rfl, rfl⟩
    · funext i
      simp [imageAt, ksSwapFinish, KernelSystem.withUser, setPcb, diskPut, krnlPage, ksFreePage,
        hinv.mem_eq hm]
    · intro t ht
      cases hpl : g.place t with
      | frame f => rfl
      | cluster x =>
          have hxc := hinv.table_cluster_ne hc hpl
          simp [imageAt, ksSwapFinish, KernelSystem.withUser, setPcb, diskPut, ksFreePage, hxc]
      | gone | lost => rfl
    · intro _ _ slot
      exact hinv.entries h slot (by simp [hm]) (by simp [hm])
    · intro t f ht hf
      have hfm : f ≠ m := by
        rintro rfl
        exact ht (hinv.frame_inj hf hm)
      simp [ksSwapFinish, KernelSystem.withUser, setPcb, diskPut, ksFreePage, hfm]
    · rintro x ⟨⟩
      exact ⟨_, update_self .., rfl, rfl⟩
    · simp [ksSwapFinish, KernelSystem.withUser, setPcb, diskPut, ksFreePage]
    · intro h' hh
      simp [ksSwapFinish, KernelSystem.withUser, setPcb, diskPut, ksFreePage, hh]
    · by_contra hle
      have := (hinv.fresh h (Nat.not_lt.mp hle)).1
      rw [hm] at this
      cases this
  · exact hinv.clusters_settle hc hhandC (by simp [hm]) (by simp)
      (fun u hu => Layout.moveMaster_place_of_ne hu)
  · intro v x hx
    have hxc := hinv.page_cluster_ne (r := .hand c) ⟨hc, rfl⟩ hx
    exact update_of_ne hxc _ _
  · exact hinv.frames_give hm (by simp) (fun u hu => Layout.moveMaster_place_of_ne hu)
  · intro x hx
    by_cases hxm : x = m
    · exact hxm ▸ hinv.hasFrame hm
    · simp only [ksSwapFinish, ksFreePage, update_of_ne hxm] at hx
      exact hinv.typed x hx

/-- One slot of `master_table_evict_children`. -/
theorem masterTableEvictChild_inv {d : Nat} (hinv : KernelInv g hand handC s)
    (hm : g.place (.master h) = .frame m)
    (hchild : masterTableEvictChild (ksEvictWith (ksSwapOut d)) h s slot = .ok s') :
    ∃ g', KernelInv g' hand handC s' ∧ Left (· = .table h slot) g s g' s' ∧
      (g.place (.table h slot)).Swapped (g'.place (.table h slot)) ∧
      ∀ v : LPage, KTable.table v.proc v.slot ≠ .table h slot → g'.desc v = g.desc v := by
  obtain ⟨p, hp, _, hat⟩ := hinv.pcb_ok hm
  unfold masterTableEvictChild at hchild
  simp only [hp, Outcome.ok_bind, hat.ptl1Ptr, index_slotCell] at hchild
  obtain ⟨s₁, hpresent, hchild⟩ := Outcome.bind_ok hchild
  have hagree := hinv.agrees hm slot
  obtain ⟨g₁, hinv₁, hleft₁, hswap₁, hothers₁⟩ : ∃ g₁, KernelInv g₁ hand handC s₁ ∧
      Left (· = .table h slot) g s g₁ s₁ ∧ ((∃ k c, g.place (.table h slot) = .frame k ∧
        g₁.place (.table h slot) = .cluster c) ∨ ((∀ k, g.place (.table h slot) ≠ .frame k) ∧
          g₁.place (.table h slot) = g.place (.table h slot))) ∧
      ∀ v : LPage, KTable.table v.proc v.slot ≠ .table h slot → g₁.desc v = g.desc v := by
    unfold evictPresent at hpresent
    cases hpl : g.place (.table h slot) with
    | frame k =>
        rw [hpl] at hagree
        rw [if_pos hagree.1, hagree.2] at hpresent
        obtain ⟨s₀, hchildren, hevict⟩ := Outcome.bind_ok hpresent
        obtain ⟨w', hinv₀, hevicted₀, _, hothers₀⟩ := hinv.evictChildren hpl hchildren
        obtain ⟨g₁, c, hinv₁, hevicted₁, hplace, hothers₁⟩ := hinv₀.evictTable hpl hevict
        exact ⟨g₁, hinv₁, (hevicted₀.toLeft.trans hevicted₁.toLeft).congr (by simp),
          .inl ⟨k, c, rfl, hplace⟩, fun v hv => (hothers₁ v hv).trans (hothers₀ v hv)⟩
    | cluster c =>
        rw [hpl] at hagree
        rw [if_neg (by rw [hagree.1]; decide)] at hpresent
        cases hpresent
        exact ⟨g, hinv, ⟨fun _ => .refl _ _, fun _ _ => rfl, by rintro t rfl f; simp [hpl],
          fun _ _ _ => rfl, fun _ _ => rfl, .refl s⟩, .inr ⟨by simp, hpl⟩, fun _ _ => rfl⟩
    | gone | lost =>
        rw [hpl] at hagree
        rw [if_neg (by rw [show _ = _ from hagree]; decide)] at hpresent
        cases hpresent
        exact ⟨g, hinv, ⟨fun _ => .refl _ _, fun _ _ => rfl, by rintro t rfl f; simp [hpl],
          fun _ _ _ => rfl, fun _ _ => rfl, .refl s⟩, .inr ⟨by simp, hpl⟩, fun _ _ => rfl⟩
  have hm₁ : g₁.place (.master h) = .frame m := by rw [hleft₁.place _ (by simp), hm]
  obtain ⟨p₁, hp₁, _, hat₁⟩ := hinv₁.pcb_ok hm₁
  simp only [hp₁, Outcome.ok_bind, hat₁.ptl1Ptr, index_slotCell] at hchild
  cases hchild
  have hnot₁ : ∀ f, g₁.place (.table h slot) ≠ .frame f := by
    obtain ⟨k, c, _, hplace⟩ | ⟨hnot, hplace⟩ := hswap₁
    · simp [hplace]
    · rwa [hplace]
  have hinv₂ := hinv₁.markSlot hm₁ hnot₁
  have hmarked : ∀ f, (g₁.place (.table h slot)).marked ≠ .frame f := by
    intro f hf
    cases hpl : g₁.place (.table h slot) with
    | frame k => exact hnot₁ k hpl
    | cluster c | gone | lost => simp [hpl, Place.marked] at hf
  refine ⟨_, hinv₂, (hleft₁.trans (left_setPtl1 hmarked _ _)).congr (by simp), ?_,
    fun v hv => (congrFun (Layout.move_desc ..) v).trans (hothers₁ v hv)⟩
  rw [Layout.move_place_self]
  obtain ⟨k, c, hold, hplace⟩ | ⟨hnot, hplace⟩ := hswap₁
  · rw [hold, hplace]
    exact ⟨c, rfl⟩
  · rw [hplace]
    cases hpl : g.place (.table h slot) with
    | frame k => exact absurd hpl (hnot k)
    | cluster c | gone | lost => rfl

/-- `master_table_evict_children`: no page table of the process is in memory afterwards. -/
theorem masterTableEvictChildren_inv {d : Nat} (hinv : KernelInv g hand handC s)
    (hm : g.place (.master h) = .frame m)
    (hloop : masterTableEvictChildren (ksEvictWith (ksSwapOut d)) h s = .ok s') :
    ∃ g', KernelInv g' hand handC s' ∧ Left (fun t => ∃ slot, t = .table h slot) g s g' s' ∧
      (∀ slot, (g.place (.table h slot)).Swapped (g'.place (.table h slot))) ∧
      ∀ v : LPage, v.proc ≠ h → g'.desc v = g.desc v := by
  let I : List Nat → KernelSystem → Prop := fun rest u =>
    (∀ i ∈ rest, i < 64) ∧ rest.Nodup ∧ ∃ g', KernelInv g' hand handC u ∧
      Left (fun t => ∃ slot : Fin 64, slot.val ∉ rest ∧ t = .table h slot) g s g' u ∧
        (∀ slot : Fin 64, slot.val ∉ rest →
          (g.place (.table h slot)).Swapped (g'.place (.table h slot))) ∧
        ∀ v : LPage, v.proc ≠ h → g'.desc v = g.desc v
  have hstep : ∀ i rest u u', I (i :: rest) u →
      masterTableEvictChild (ksEvictWith (ksSwapOut d)) h u i = .ok u' → I rest u' := by
    rintro i rest u u' ⟨hlt, hnodup, g₁, hinv₁, hleft₁, hswap₁, hothers₁⟩ hi
    have hi64 : i < 64 := hlt i (by simp)
    have hm₁ : g₁.place (.master h) = .frame m := by rw [hleft₁.place _ (by simp), hm]
    obtain ⟨g₂, hinv₂, hleft₂, hswap₂, hothers₂⟩ :=
      hinv₁.masterTableEvictChild_inv hm₁
        (show masterTableEvictChild _ h u (⟨i, hi64⟩ : Fin 64) = .ok u' from hi)
    have hkept : ∀ slot : Fin 64, slot.val ∈ i :: rest →
        g₁.place (.table h slot) = g.place (.table h slot) := by
      intro slot hslot
      refine hleft₁.place _ ?_
      rintro ⟨slot', hslot', heq⟩
      cases heq
      exact hslot' hslot
    refine ⟨fun j hj => hlt j (by simp [hj]), (List.nodup_cons.mp hnodup).2, g₂, hinv₂,
      (hleft₁.trans hleft₂).congr ?_, ?_, ?_⟩
    · intro t
      constructor
      · rintro ⟨slot, hslot, rfl⟩
        by_cases hsi : slot = ⟨i, hi64⟩
        · exact .inr (by rw [hsi])
        · have hne : slot.val ≠ i := fun heq => hsi (Fin.ext heq)
          exact .inl ⟨slot, by simp [hne, hslot], rfl⟩
      · rintro (⟨slot, hslot, rfl⟩ | rfl)
        · exact ⟨slot, fun hmem => hslot (by simp [hmem]), rfl⟩
        · exact ⟨⟨i, hi64⟩, (List.nodup_cons.mp hnodup).1, rfl⟩
    · intro slot hslot
      by_cases hsi : slot = ⟨i, hi64⟩
      · subst slot
        rw [← hkept ⟨i, hi64⟩ (by simp)]
        exact hswap₂
      · have hne : slot.val ≠ i := fun heq => hsi (Fin.ext heq)
        rw [hleft₂.place _ (by simpa using hsi)]
        exact hswap₁ slot (by simp [hne, hslot])
    · intro v hv
      refine (hothers₂ v fun heq => ?_).trans (hothers₁ v hv)
      exact hv (KTable.table.inj heq).1
  have hstart : I (List.range maxPageTablesL1) s := by
    refine ⟨fun i hi => by simpa [maxPageTablesL1] using hi, List.nodup_range, g, hinv,
      (Left.refl g s).congr ?_, ?_, fun _ _ => rfl⟩
    · intro t
      simp only [maxPageTablesL1, List.mem_range, iff_false]
      rintro ⟨slot, hslot, _⟩
      exact hslot slot.isLt
    · intro slot hslot
      simp [maxPageTablesL1] at hslot
  obtain ⟨_, _, g', hinv', hleft, hswap, hothers⟩ := Outcome.foldlM_ok I hstep hstart hloop
  exact ⟨g', hinv', hleft.congr (by simp), fun slot => hswap slot (by simp), hothers⟩

/-- `ks_swap_out` of a master table, from the `switch` on. -/
theorem swapOwner_master {d : Nat} (hinv : KernelInv g hand handC s)
    (hm : g.place (.master h) = .frame m) (hc : handC c)
    (hhandC : ∀ x, handC' x ↔ handC x ∧ x ≠ c)
    (hown : s.ksSwapOwner (ksEvictWith (ksSwapOut d)) m c = .ok s') :
    ∃ g', KernelInv g' hand handC' (s'.ksSwapFinish m c true) ∧
      Evicted (fun t => t = .master h ∨ ∃ slot, t = .table h slot) g s g'
        (s'.ksSwapFinish m c true) ∧
      g'.place (.master h) = .cluster c ∧
      (∀ slot, (g.place (.table h slot)).Swapped (g'.place (.table h slot))) ∧
      ∀ v : LPage, v.proc ≠ h → g'.desc v = g.desc v := by
  obtain ⟨htype, howner, _⟩ := hinv.masters h m hm
  unfold ksSwapOwner at hown
  simp only [htype, howner] at hown
  obtain ⟨s₁, hchildren, hown⟩ := Outcome.bind_ok hown
  obtain ⟨g₁, hinv₁, hleft, hswap, hothers⟩ := hinv.masterTableEvictChildren_inv hm hchildren
  have hm₁ : g₁.place (.master h) = .frame m := by rw [hleft.place _ (by simp), hm]
  obtain ⟨p, hp, hpcb, _⟩ := hinv₁.pcb_ok hm₁
  simp only [hp, Outcome.ok_bind] at hown
  cases hown
  have halone : ∀ slot f, g₁.place (.table h slot) ≠ .frame f :=
    fun slot => hleft.gone _ ⟨slot, rfl⟩
  have hinv₂ := hinv₁.swapOutMaster (p := p) hm₁ halone hc hhandC
  have hmoved : Left (· = .master h) g₁ s₁
      (g₁.moveMaster h (.cluster c) (g₁.cells (.master h)))
      ((s₁.setPcb h { p with mtDisk := c, masterTableValid := false }).ksSwapFinish m c true) := by
    refine ⟨fun v => ?_, fun t ht => Layout.moveMaster_place_of_ne ht, ?_, ?_, ?_, ?_⟩
    · rw [Layout.moveMaster_desc]
      refine kept_of_disk ?_ (fun v hp => ?_) v
      · rfl
      · have hxc := hinv₁.page_cluster_ne (r := .hand c) ⟨hc, rfl⟩ (v := v) (.inr ⟨hp, rfl⟩)
        exact update_of_ne hxc _ _
    · rintro t rfl f
      simp
    · intro t f hf
      have hfm : f ≠ m := by
        rintro rfl
        have hfree : f ∈ s₁.ksEmpty ++ [f] := by simp
        exact hinv₂.frames.not_free (r := .table t) hf hfree
      simp [ksSwapFinish, KernelSystem.withUser, setPcb, diskPut, ksFreePage, hfm]
    · intro h' n
      by_cases hh : h' = h
      · subst h'
        rw [Layout.moveMaster_cells_self]
      · rw [Layout.moveMaster_cells_of_ne (by simpa using hh)]
    · refine ⟨rfl, rfl, rfl, rfl, fun h' => ?_, rfl, rfl, rfl, rfl, rfl, rfl, rfl⟩
      by_cases hh : h' = h
      · subst h'
        simp [ksSwapFinish, KernelSystem.withUser, setPcb, diskPut, ksFreePage, hpcb,
          KernelProcess.rest]
      · simp [ksSwapFinish, KernelSystem.withUser, setPcb, diskPut, ksFreePage, hh]
  refine ⟨_, hinv₂, ⟨(hleft.trans hmoved).congr (fun t => or_comm), ?_, ?_, ?_, ?_⟩, by simp, ?_,
    fun v hv => (congrFun (Layout.moveMaster_desc ..) v).trans (hothers v hv)⟩
  · exact fun _ _ hout => .inr (by
      obtain hout | ⟨_, hout⟩ := hout
      · cases hout
      · cases hout
        exact .inl rfl)
  · intro h' slot hlost
    rw [Layout.moveMaster_place_table] at hlost
    by_cases hh : h' = h
    · exact .inr (.inl (by rw [hh]))
    · rw [hleft.place _ (by simp [hh])] at hlost
      exact .inl hlost
  · rintro h' (hout | ⟨_, hout⟩)
    · cases hout
      exact ⟨⟨m, hm⟩, c, Layout.moveMaster_place_self⟩
    · cases hout
  · intro t x hx
    have ht : t ≠ .master h := by
      rintro rfl
      cases hx.symm.trans hm
    rw [Layout.moveMaster_place_of_ne ht]
    by_cases hout : ∃ slot, t = .table h slot
    · obtain ⟨slot, rfl⟩ := hout
      have hsame := hswap slot
      rw [hx] at hsame
      exact hsame
    · rw [hleft.place t hout, hx]
  · intro slot
    rw [Layout.moveMaster_place_table]
    exact hswap slot

/-- With no free frame and nothing in hand, a frame of a table's type houses a table. -/
theorem housed (hinv : KernelInv g noHand handC s) (hempty : s.ksEmpty = [])
    (htype : (s.ksFt f).type = .ksPageTable ∨ (s.ksFt f).type = .ksSegTable) :
    ∃ t, g.place t = .frame f := by
  obtain ⟨t | n, hholds⟩ := hinv.frames.covered (hinv.typed f htype) (by simp [hempty])
  · exact ⟨t, hholds⟩
  · exact absurd hholds.1 id

/-- The scan stops at an unlocked frame. -/
theorem findUnlocked_spec : ∀ {n place found : Nat}, s.findUnlocked n place = some found →
    (s.ksFt found).getLocked = false
  | 0, _, _, hfind => by cases hfind
  | n + 1, place, found, hfind => by
      unfold findUnlocked at hfind
      generalize (if s.krnlspcSize ≤ place + 1 then s.ksReserved else place + 1) = next at hfind
      simp only at hfind
      split at hfind
      · exact findUnlocked_spec hfind
      · rename_i hnext
        split at hfind
        · split at hfind
          · exact findUnlocked_spec hfind
          · rename_i hpassed
            cases hfind
            exact Bool.eq_false_of_not_eq_true hpassed
        · cases hfind
          exact Bool.eq_false_of_not_eq_true hnext

/-- The rolls that remain are nobody's business. -/
theorem diced (hinv : KernelInv g hand handC s) (dice : List Nat) :
    KernelInv g hand handC (s.withUser { s.toUserSpace with dice := dice }) :=
  ⟨⟨hinv.user.frames.of_eq rfl rfl rfl rfl, hinv.user.clusters.of_eq rfl rfl rfl rfl rfl rfl⟩,
    hinv.krnl_le, hinv.nodup, hinv.frames, hinv.typed, hinv.image, hinv.entries, hinv.tables,
    hinv.masters, hinv.stored, hinv.newborn, hinv.live, hinv.fresh⟩

/-- `ks_get_victim` chooses an unlocked frame, and nothing changes but the rolls. -/
theorem ksGetVictim_ok {victim : Victim} (hvictim : s.ksGetVictim = .ok (victim, s')) :
    (s.ksFt victim.ordinal).getLocked = false ∧ victim.cluster = nullCluster ∧
      ∃ dice, s' = s.withUser { s.toUserSpace with dice := dice } := by
  unfold ksGetVictim at hvictim
  split at hvictim
  · cases hvictim
  · rename_i roll dice _
    simp only at hvictim
    split at hvictim
    · split at hvictim
      · cases hvictim
      · rename_i place hfind
        cases hvictim
        have hunlocked := findUnlocked_spec hfind
        exact ⟨hunlocked, rfl, dice, rfl⟩
    · rename_i hunlocked
      cases hvictim
      exact ⟨Bool.eq_false_of_not_eq_true hunlocked, rfl, dice, rfl⟩

theorem takeFrame {rest : List Nat} (hinv : KernelInv g noHand handC s)
    (hempty : s.ksEmpty = f :: rest) :
    KernelInv g (· = f) handC { s with ksEmpty := rest } ∧
      Evicted (fun _ => False) g s g { s with ksEmpty := rest } := by
  have hnodup := hinv.nodup
  rw [hempty, List.nodup_cons] at hnodup
  have hmem : f ∈ s.ksEmpty := by simp [hempty]
  refine ⟨⟨hinv.user, hinv.krnl_le, hnodup.2, ?_, hinv.typed, hinv.image, hinv.entries,
    hinv.tables, hinv.masters, hinv.stored, hinv.newborn, hinv.live, hinv.fresh⟩,
    .quiet g (fun _ => rfl) rfl
      ⟨rfl, rfl, rfl, rfl, fun _ => rfl, rfl, rfl, rfl, rfl, rfl, rfl, rfl⟩⟩
  refine hinv.frames.take (r := .hand f) (c := f) hmem ?_ ?_ ?_ ?_
  · rintro x ⟨hx, _⟩
    exact hx
  · intro x
    simp only [hempty, List.mem_cons]
    constructor
    · intro hx
      exact ⟨.inr hx, fun heq => hnodup.1 (heq ▸ hx)⟩
    · rintro ⟨rfl | hx, hne⟩
      · exact absurd rfl hne
      · exact hx
  · intro x
    simp only [frameOf]
    exact ⟨fun hx => hx.2.symm, fun hx => ⟨trivial, hx.symm⟩⟩
  · rintro (u | n) x hne
    · rfl
    · have hn : n ≠ f := fun heq => hne (by rw [heq])
      simp [frameOf, noHand, hn]

/-- Swapping out a victim of `ks_get_victim` moves no table that is pinned. -/
theorem ksSwapOut_victim {depth : Nat} {victim : Victim} (hinv : KernelInv g noHand noHand s)
    (hempty : s.ksEmpty = []) (hunlocked : (s.ksFt victim.ordinal).getLocked = false)
    (hnull : victim.cluster = nullCluster) (hswap : ksSwapOut depth s victim = .ok s') :
    ∃ g', KernelInv g' noHand noHand s' ∧ Evicted (g.WithFrame victim.ordinal) g s g' s' ∧
      (∀ t f, g.WithFrame victim.ordinal t → ¬ Pinned g s t f) ∧
      ∀ v : LPage, ¬ g.WithFrame victim.ordinal (.table v.proc v.slot) →
        g'.desc v = g.desc v := by
  obtain ⟨d, c, us, s₂, hacquire, hinv₁, hevicted₁, howner, rfl⟩ :=
    hinv.ksSwapOut_acquired hnull hswap
  obtain ⟨_, rfl⟩ := dvtAcquireCluster_some hacquire
  have hgive : ∀ x, noHand x ↔ x = c ∧ x ≠ c := fun x => ⟨False.elim, fun hx => hx.2 hx.1⟩
  have htype : (s.ksFt victim.ordinal).type = .ksPageTable ∨
      (s.ksFt victim.ordinal).type = .ksSegTable := by
    unfold ksSwapOwner at howner
    split at howner
    · rename_i _ _ htype _
      exact .inl htype
    · rename_i _ _ htype _
      exact .inr htype
    · cases howner
    · cases howner
    · cases howner
  have hfree : ∀ t f, g.place t = .frame victim.ordinal → ¬ LockedIn g s t f := by
    rintro t f ht ⟨hf, hlocked⟩
    rw [ht] at hf
    cases hf
    rw [hunlocked] at hlocked
    cases hlocked
  have hpinned : ∀ t f, g.WithFrame victim.ordinal t → ¬ Pinned g s t f := by
    rintro t f (ht | ⟨h, slot, rfl, hm⟩) hpin
    · cases t with
      | master h => exact hfree _ f ht hpin
      | table h slot => exact hfree _ f ht hpin.1
    · obtain ⟨_, m, hlocked⟩ := hpin
      exact hfree _ m hm hlocked
  obtain ⟨h | ⟨h, slot⟩, ht⟩ := hinv.housed hempty htype
  · obtain ⟨g', hinv', hevicted, _, _, hothers⟩ := hinv₁.swapOwner_master ht rfl hgive howner
    refine ⟨g', hinv', (hevicted₁.trans hevicted).congr fun t => ?_, hpinned,
      fun v hv => hothers v ?_⟩
    · rw [Layout.withFrame_master hinv ht]
      exact (iff_of_eq (false_or _)).symm
    · rintro rfl
      exact hv ((Layout.withFrame_master hinv ht).mpr (.inr ⟨_, rfl⟩))
  · obtain ⟨g', hinv', hevicted, _, _, hothers⟩ := hinv₁.swapOwner_table ht rfl hgive howner
    refine ⟨g', hinv', (hevicted₁.trans hevicted).congr fun t => ?_, hpinned,
      fun v hv => hothers v fun heq => hv ((Layout.withFrame_table hinv ht).mpr heq)⟩
    rw [Layout.withFrame_table hinv ht]
    exact (iff_of_eq (false_or _)).symm

/-- `ks_acquire_page` takes a free frame, or makes room with a table that is not pinned. -/
theorem ksTakePage_inv (hinv : KernelInv g noHand noHand s)
    (htake : s.ksTakePage = .ok (f, s')) :
    ∃ g', KernelInv g' (· = f) noHand s' ∧ Evicted (MakesRoom g s) g s g' s' ∧
      (∀ t f, MakesRoom g s t → ¬ Pinned g s t f) ∧
      ∀ v : LPage, ¬ MakesRoom g s (.table v.proc v.slot) → g'.desc v = g.desc v := by
  unfold ksTakePage ksGetEmptyPage at htake
  cases hempty : s.ksEmpty with
  | cons page rest =>
      have hnone : ∀ t, MakesRoom g s t ↔ False := by
        rintro t
        simp [MakesRoom, victimFrame, hempty]
      simp only [hempty, Except.ok.injEq, Prod.mk.injEq] at htake
      obtain ⟨rfl, rfl⟩ := htake
      obtain ⟨htaken, hquiet⟩ := hinv.takeFrame hempty
      exact ⟨g, htaken, hquiet.congr hnone, fun t _ hroom => ((hnone t).mp hroom).elim,
        fun _ _ => rfl⟩
  | nil =>
      simp only [hempty] at htake
      obtain ⟨⟨victim, s₀⟩, hvictim, hrest⟩ := Outcome.bind_ok htake
      obtain ⟨s₁, hswap, hlast⟩ := Outcome.bind_ok hrest
      have hroom : ∀ t, MakesRoom g s t ↔ g.WithFrame victim.ordinal t := by
        intro t
        simp [MakesRoom, victimFrame, hempty, hvictim, Except.toOption]
      obtain ⟨hunlocked, hnull, dice, rfl⟩ := ksGetVictim_ok hvictim
      have hdiced := hinv.diced dice
      have hrolled : Evicted (fun _ => False) g s g
          (s.withUser { s.toUserSpace with dice := dice }) :=
        .quiet g (fun _ => rfl) rfl
          ⟨rfl, rfl, rfl, rfl, fun _ => rfl, rfl, rfl, rfl, rfl, rfl, rfl, rfl⟩
      obtain ⟨g', hinv', hevicted, hfree, hothers⟩ :=
        hdiced.ksSwapOut_victim hempty hunlocked hnull hswap
      cases hlist : s₁.ksEmpty with
      | nil => simp [hlist] at hlast
      | cons page rest =>
          simp only [hlist, Except.ok.injEq, Prod.mk.injEq] at hlast
          obtain ⟨rfl, rfl⟩ := hlast
          obtain ⟨htaken, hquiet⟩ := hinv'.takeFrame hlist
          refine ⟨g', htaken, ((hrolled.trans hevicted).trans hquiet).congr fun t => ?_,
            fun t x hout => hfree t x ((hroom t).mp hout),
            fun v hv => hothers v fun hout => hv ((hroom _).mpr hout)⟩
          rw [hroom, false_or, or_false]

end KernelInv

end VirtualMemory
