import VirtualMemory.KernelInvariant

/-!
# Tables that move

What keeps the kernel invariant, one lemma for each way in which the layout changes: user
paging works on descriptors in memory, a page table changes its place together with its
first level entry, a master table changes its place, a segment entry is written, a frame
is taken or locked. The operations of the kernel are compositions of these.
-/

namespace VirtualMemory

open Function UserSpace

namespace Layout

/-- The layout with a page table in another place and its entry in the master table. -/
def move (g : Layout) (h : Nat) (slot : Fin 64) (pl : Place) (e : PageTableL1Entry) :
    Layout where
  place := update g.place (.table h slot) pl
  cells := update g.cells (.master h) (update (g.cells (.master h)) (slotCell slot) e.toCell)

/-- The layout with a master table in another place, containing `page`. -/
def moveMaster (g : Layout) (h : Nat) (pl : Place) (page : Page) : Layout where
  place := update g.place (.master h) pl
  cells := update g.cells (.master h) page

variable {g : Layout} {h : Nat} {slot : Fin 64} {pl : Place} {e : PageTableL1Entry}
  {page : Page} {t : KTable}

@[simp] theorem move_place_self : (g.move h slot pl e).place (.table h slot) = pl := by
  simp [move]

theorem move_place_of_ne (ht : t ≠ .table h slot) : (g.move h slot pl e).place t = g.place t := by
  simp [move, ht]

@[simp] theorem move_place_master (h' : Nat) :
    (g.move h slot pl e).place (.master h') = g.place (.master h') := by
  simp [move]

@[simp] theorem move_cells_table (h' : Nat) (slot' : Fin 64) :
    (g.move h slot pl e).cells (.table h' slot') = g.cells (.table h' slot') := by
  simp [move]

theorem move_cells_self : (g.move h slot pl e).cells (.master h) =
    update (g.cells (.master h)) (slotCell slot) e.toCell := by
  simp [move]

theorem move_cells_master_of_ne {h' : Nat} (hne : h' ≠ h) :
    (g.move h slot pl e).cells (.master h') = g.cells (.master h') := by
  simp [move, hne]

@[simp] theorem move_desc : (g.move h slot pl e).desc = g.desc := by
  funext v
  simp [desc]

@[simp] theorem moveMaster_place_self : (g.moveMaster h pl page).place (.master h) = pl := by
  simp [moveMaster]

theorem moveMaster_place_of_ne (ht : t ≠ .master h) :
    (g.moveMaster h pl page).place t = g.place t := by
  simp [moveMaster, ht]

@[simp] theorem moveMaster_place_table (h' : Nat) (slot' : Fin 64) :
    (g.moveMaster h pl page).place (.table h' slot') = g.place (.table h' slot') := by
  simp [moveMaster]

@[simp] theorem moveMaster_cells_self : (g.moveMaster h pl page).cells (.master h) = page := by
  simp [moveMaster]

theorem moveMaster_cells_of_ne (ht : t ≠ .master h) :
    (g.moveMaster h pl page).cells t = g.cells t := by
  simp [moveMaster, ht]

@[simp] theorem moveMaster_desc : (g.moveMaster h pl page).desc = g.desc := by
  funext v
  simp [desc, moveMaster]

@[simp] theorem moveMaster_addr : (g.moveMaster h pl page).addr = g.addr := by
  funext v
  simp [addr]

@[simp] theorem moveMaster_view : (g.moveMaster h pl page).view = g.view := by
  simp [view]

/-- Other tables than the one that moves keep the addresses of their descriptors. -/
theorem move_addr_of_ne {v : LPage} (hv : KTable.table v.proc v.slot ≠ .table h slot) :
    (g.move h slot pl e).addr v = g.addr v := by
  unfold addr
  rw [move_place_of_ne hv]

end Layout

namespace KernelInv

variable {g : Layout} {hand hand' handC handC' : Nat → Prop} {s s' : KernelSystem}

/-- User paging that works on descriptors in memory leaves the tables where they are. -/
theorem paged {w' : PageView LPage KAddr} {us' : UserSpace KAddr} {but : LPage → Prop}
    (hinv : KernelInv g hand handC s) (huser : UserInv w' noHand (clusterOf g handC) us')
    (hbut : PagedBut (clusterOf g handC) but g.view s.toUserSpace w' us')
    (hin : ∀ v, but v → g.addr v ≠ none) :
    KernelInv (g.withDesc w'.desc) hand handC (s.withUser us') := by
  have hview : (g.withDesc w'.desc).view = w' := by
    obtain ⟨desc, addr⟩ := w'
    obtain rfl : addr = g.addr := hbut.addr
    rfl
  -- a table that is not in memory has no resident page, and no page of `but`
  have hsame : ∀ h slot, (∀ f, g.place (.table h slot) ≠ .frame f) →
      (g.withDesc w'.desc).cells (.table h slot) = g.cells (.table h slot) := by
    intro h slot hnot
    funext i
    refine (hbut.keptBut ⟨h, slot, i⟩ ?_).desc_eq ?_
    · intro hb
      obtain ⟨a, ha⟩ := Option.ne_none_iff_exists'.mp (hin _ hb)
      exact hnot _ (Layout.addr_eq_some.mp ha).1
    · intro hr
      obtain ⟨f, hf⟩ := hinv.resident_frame hr
      exact hnot f hf
  refine ⟨?_, hinv.krnl_le, hinv.nodup, hinv.frames, hinv.typed, ?_, hinv.entries, hinv.tables,
    hinv.masters, hinv.stored, hinv.newborn, hinv.live, hinv.fresh⟩
  · rw [hview]
    exact huser
  · intro t
    have hdisk : ∀ c, g.place t = .cluster c → us'.disk c = s.disk c :=
      fun c hc => hbut.disk (.table t) c hc
    have himage := hinv.image t
    cases t with
    | master h =>
        rw [Layout.withDesc_place, Layout.withDesc_master, ← himage]
        cases hpl : g.place (.master h) with
        | frame m =>
            funext i
            refine hbut.mem _ fun v hv => ?_
            cases hinv.frame_inj hpl (Layout.addr_eq_some.mp hv).1
        | cluster c => exact hdisk c hpl
        | gone | lost => rfl
    | table h slot =>
        rw [Layout.withDesc_place]
        cases hpl : g.place (.table h slot) with
        | frame f =>
            funext i
            have ha : w'.addr ⟨h, slot, i⟩ = some ⟨f, i⟩ := by
              rw [hbut.addr]
              exact Layout.addr_of_frame hpl i
            exact huser.frames.link _ _ ha
        | cluster c =>
            rw [hsame h slot (by simp [hpl]), ← himage, hpl]
            exact hdisk c hpl
        | gone | lost =>
            rw [hsame h slot (by simp [hpl]), ← himage, hpl]
            rfl

section Ledgers

variable {g' : Layout} {t : KTable} {f c : Nat}

theorem nodup_concat (hinv : KernelInv g hand handC s) (ht : g.place t = .frame f) :
    (s.ksEmpty ++ [f]).Nodup := by
  have hnot : f ∉ s.ksEmpty := hinv.frames.not_free (r := .table t) ht
  refine List.nodup_append.mpr ⟨hinv.nodup, by simp, fun x hx y hy => ?_⟩
  rw [List.mem_singleton] at hy
  rintro rfl
  exact hnot (hy ▸ hx)

/-- A table leaves its frame, which becomes free. -/
theorem frames_give (hinv : KernelInv g hand handC s) (ht : g.place t = .frame f)
    (hself : ∀ x, g'.place t ≠ .frame x) (hother : ∀ u, u ≠ t → g'.place u = g.place u) :
    Ledger.Exact s.HasFrame (· ∈ s.ksEmpty ++ [f]) (frameOf g' hand) := by
  refine hinv.frames.give (r := .table t) (c := f) ht (fun x hx => ?_) (fun x => by simp)
    hself ?_
  · rw [frameOf, ht] at hx
    injection hx with hx
    exact hx.symm
  · rintro (u | n) x hne
    · simp only [frameOf, hother u (fun heq => hne (by rw [heq]))]
    · rfl

/-- A table moves into a frame in hand. -/
theorem frames_settle (hinv : KernelInv g hand handC s) (hf : hand f)
    (hhand : ∀ x, hand' x ↔ hand x ∧ x ≠ f) (hnone : ∀ x, g.place t ≠ .frame x)
    (hself : g'.place t = .frame f) (hother : ∀ u, u ≠ t → g'.place u = g.place u) :
    Ledger.Exact s.HasFrame (· ∈ s.ksEmpty) (frameOf g' hand') := by
  refine hinv.frames.move (r := .hand f) (q := .table t) (c := f) ⟨hf, rfl⟩
    (fun x hx => hx.2.symm) hnone (by simp) (fun _ => Iff.rfl) ?_ ?_ ?_
  · rintro x ⟨hx, rfl⟩
    exact ((hhand f).mp hx).2 rfl
  · intro x
    simp only [frameOf, hself, Place.frame.injEq, eq_comm]
  · rintro (u | n) x hr hq
    · simp only [frameOf, hother u (fun heq => hq (by rw [heq]))]
    · have hn : n ≠ f := fun heq => hr (by rw [heq])
      simp [frameOf, hhand, hn]

theorem frames_same (hinv : KernelInv g hand handC s)
    (hplace : ∀ u x, g'.place u = .frame x ↔ g.place u = .frame x) :
    Ledger.Exact s.HasFrame (· ∈ s.ksEmpty) (frameOf g' hand) := by
  refine hinv.frames.congr (fun _ => Iff.rfl) ?_
  rintro (u | n) x
  · exact hplace u x
  · rfl

/-- A table moves into a cluster in hand. -/
theorem clusters_settle (hinv : KernelInv g hand handC s) (hc : handC c)
    (hhand : ∀ x, handC' x ↔ handC x ∧ x ≠ c) (hnone : ∀ x, g.place t ≠ .cluster x)
    (hself : g'.place t = .cluster c) (hother : ∀ u, u ≠ t → g'.place u = g.place u) :
    Ledger.Exact (· < s.diskSize) (s.dvt · = true)
      (clusterHolds g.desc s.ot (clusterOf g' handC')) := by
  refine hinv.user.clusters.ledger.move (r := .ext (.hand c)) (q := .ext (.table t)) (c := c)
    ⟨hc, rfl⟩ (fun x hx => hx.2.symm) hnone (by simp) (fun _ => Iff.rfl) ?_ ?_ ?_
  · rintro x ⟨hx, rfl⟩
    exact ((hhand c).mp hx).2 rfl
  · intro x
    simp only [clusterHolds, clusterOf, hself, Place.cluster.injEq, eq_comm]
  · rintro (v | u | n) x hr hq
    · rfl
    · simp only [clusterHolds, clusterOf, hother u (fun heq => hq (by rw [heq]))]
    · have hn : n ≠ c := fun heq => hr (by rw [heq])
      simp [clusterHolds, clusterOf, hhand, hn]

/-- A table leaves its cluster, which becomes free. -/
theorem clusters_give (hinv : KernelInv g hand handC s) (ht : g.place t = .cluster c)
    (hself : ∀ x, g'.place t ≠ .cluster x) (hother : ∀ u, u ≠ t → g'.place u = g.place u) :
    Ledger.Exact (· < s.diskSize) (update s.dvt c true · = true)
      (clusterHolds g.desc s.ot (clusterOf g' handC)) := by
  refine hinv.user.clusters.ledger.give (r := .ext (.table t)) (c := c) ht (fun x hx => ?_) ?_
    hself ?_
  · rw [clusterHolds, clusterOf, ht] at hx
    injection hx with hx
    exact hx.symm
  · intro x
    by_cases hx : x = c <;> simp [hx]
  · rintro (v | u | n) x hne
    · rfl
    · simp only [clusterHolds, clusterOf, hother u (fun heq => hne (by rw [heq]))]
    · rfl

theorem clusters_same (hinv : KernelInv g hand handC s)
    (hplace : ∀ u x, g'.place u = .cluster x ↔ g.place u = .cluster x) :
    Ledger.Exact (· < s.diskSize) (s.dvt · = true)
      (clusterHolds g.desc s.ot (clusterOf g' handC)) := by
  refine hinv.user.clusters.ledger.congr (fun _ => Iff.rfl) ?_
  rintro (v | u | n) x
  · rfl
  · exact hplace u x
  · rfl

/-- A cluster in hand, or a table's, is no user page's. -/
theorem page_cluster_ne (hinv : KernelInv g hand handC s) {r : KHolder}
    (hc : clusterOf g handC r c) {v : LPage} {x : Nat}
    (hv : clusterHolds g.desc s.ot (clusterOf g handC) (.page v) x) : x ≠ c := by
  rintro rfl
  have hsame : ClusterHolder.page v = ClusterHolder.ext r :=
    hinv.user.clusters.ledger.inj (c := x) hv hc
  cases hsame

theorem table_cluster_ne (hinv : KernelInv g hand handC s) (hc : handC c)
    (ht : g.place t = .cluster f) : f ≠ c := by
  rintro rfl
  have hsame : ClusterHolder.ext (V := LPage) (KHolder.table t) = .ext (KHolder.hand f) :=
    hinv.user.clusters.ledger.inj (c := f) ht ⟨hc, rfl⟩
  cases hsame

theorem cluster_inj (hinv : KernelInv g hand handC s) {t' : KTable} (ht : g.place t = .cluster c)
    (ht' : g.place t' = .cluster c) : t = t' := by
  have hsame : ClusterHolder.ext (V := LPage) (KHolder.table t) = .ext (KHolder.table t') :=
    hinv.user.clusters.ledger.inj (c := c) ht ht'
  injection hsame with hsame
  injection hsame

theorem cluster_lt (hinv : KernelInv g hand handC s) {r : KHolder} (hc : clusterOf g handC r c) :
    c < maxClusters :=
  Nat.lt_of_lt_of_le (hinv.user.clusters.ledger.holds_dom (r := .ext r) hc)
    hinv.user.clusters.small

end Ledgers

/-- The user pages when only tables without resident pages moved. -/
theorem relocated {g' : Layout} {dom : Nat → Prop} (hinv : KernelInv g hand handC s)
    (hdesc : g'.desc = g.desc) (haddr : ∀ v, (g.desc v).Resident → g'.addr v = g.addr v)
    (himage : ∀ h slot, imageAt s'.toUserSpace (g'.place (.table h slot)) =
      g'.cells (.table h slot))
    (hframes : Ledger.Exact dom (· ∈ s'.ksEmpty) (frameOf g' hand'))
    (hus : s'.toUserSpace = { s.toUserSpace with mem := s'.mem, dvt := s'.dvt, disk := s'.disk })
    (hclusters : Ledger.Exact (· < s.diskSize) (s'.dvt · = true)
      (clusterHolds g.desc s.ot (clusterOf g' handC')))
    (hdisk : ∀ v c, clusterHolds g.desc s.ot (clusterOf g handC) (.page v) c →
      s'.disk c = s.disk c) :
    UserInv g'.view noHand (clusterOf g' handC') s'.toUserSpace := by
  refine hinv.user.relocate hdesc haddr ?_ ?_ hus hclusters hdisk
  · rintro v ⟨f, i⟩ ha
    obtain ⟨hplace, rfl⟩ := Layout.addr_eq_some.mp ha
    have himage' := himage v.proc v.slot
    rw [hplace] at himage'
    exact (congrFun himage' v.cell).trans (congrFun hdesc v)
  · rintro ⟨h, slot, i⟩ ⟨h', slot', i'⟩ ⟨f, j⟩ ha ha'
    obtain ⟨hplace, rfl⟩ := Layout.addr_eq_some.mp ha
    obtain ⟨hplace', rfl⟩ := Layout.addr_eq_some.mp ha'
    have hsame : KHolder.table (.table h slot) = .table (.table h' slot') :=
      hframes.inj (c := f) hplace hplace'
    cases hsame
    rfl

/-- The kernel state after page table `slot` of process `h` moved to `pl`, as far as it is
not the ledgers' business. -/
structure Moved (g : Layout) (h : Nat) (slot : Fin 64) (m : Nat) (pl : Place)
    (e : PageTableL1Entry) (s s' : KernelSystem) : Prop where
  agree : L1Agrees pl e
  idle : ∀ i, ¬ (g.desc ⟨h, slot, i⟩).Resident
  self : imageAt s'.toUserSpace pl = g.cells (.table h slot)
  master : ∀ i, s'.mem ⟨m, i⟩ = update (g.cells (.master h)) (slotCell slot) e.toCell i
  others : ∀ t, t ≠ .table h slot → t ≠ .master h →
    imageAt s'.toUserSpace (g.place t) = imageAt s.toUserSpace (g.place t)
  ksFt : ∀ t f, t ≠ .table h slot → g.place t = .frame f → s'.ksFt f = s.ksFt f
  newFt : ∀ f, pl = .frame f → (s'.ksFt f).type = .ksPageTable ∧
    (s'.ksFt f).owner = some (.ptl1e ⟨m, slotCell slot⟩)
  us : s'.toUserSpace = { s.toUserSpace with mem := s'.mem, dvt := s'.dvt, disk := s'.disk }
  pcbs : s'.pcbs = s.pcbs
  nextPcb : s'.nextPcb = s.nextPcb
  krnlspcSize : s'.krnlspcSize = s.krnlspcSize
  ksReserved : s'.ksReserved = s.ksReserved

theorem move {h : Nat} {slot : Fin 64} {m : Nat} {pl : Place} {e : PageTableL1Entry}
    (hinv : KernelInv g hand handC s) (hm : g.place (.master h) = .frame m)
    (moved : Moved g h slot m pl e s s')
    (hclusters : Ledger.Exact (· < s.diskSize) (s'.dvt · = true)
      (clusterHolds g.desc s.ot (clusterOf (g.move h slot pl e) handC')))
    (hdisk : ∀ v c, clusterHolds g.desc s.ot (clusterOf g handC) (.page v) c →
      s'.disk c = s.disk c)
    (hnodup : s'.ksEmpty.Nodup)
    (hframes : Ledger.Exact s.HasFrame (· ∈ s'.ksEmpty) (frameOf (g.move h slot pl e) hand'))
    (htyped : ∀ f, (s'.ksFt f).type = .ksPageTable ∨ (s'.ksFt f).type = .ksSegTable →
      s.HasFrame f) :
    KernelInv (g.move h slot pl e) hand' handC' s' := by
  have hhas : s'.HasFrame = s.HasFrame := by
    funext f
    simp only [KernelSystem.HasFrame, moved.krnlspcSize, moved.ksReserved]
  have himage : ∀ t, imageAt s'.toUserSpace ((g.move h slot pl e).place t) =
      (g.move h slot pl e).cells t := by
    intro t
    by_cases ht : t = .table h slot
    · subst t
      rw [Layout.move_place_self, Layout.move_cells_table, moved.self]
    · by_cases htm : t = .master h
      · subst t
        rw [Layout.move_place_master, hm, Layout.move_cells_self]
        exact funext moved.master
      · rw [Layout.move_place_of_ne ht, moved.others t ht htm, hinv.image t]
        simp [Layout.move, htm]
  refine ⟨?_, moved.krnlspcSize ▸ hinv.krnl_le, hnodup, hhas ▸ hframes, hhas ▸ htyped, himage,
    ?_, ?_, ?_, ?_, ?_, ?_, ?_⟩
  · refine hinv.relocated Layout.move_desc ?_ (fun _ _ => himage _) hframes moved.us hclusters hdisk
    rintro ⟨h', slot', i⟩ hv
    refine Layout.move_addr_of_ne ?_
    rintro ⟨⟩
    exact moved.idle i hv
  · intro h' slot' hgone hlost
    rw [Layout.move_place_master] at hgone hlost
    by_cases hh : h' = h
    · subst h'
      rw [Layout.move_cells_self]
      by_cases hs : slot' = slot
      · subst slot'
        simpa using moved.agree
      · rw [update_of_ne (fun heq => hs (slotCell_inj.mp heq)),
          Layout.move_place_of_ne (by simpa using hs)]
        exact hinv.entries h slot' hgone hlost
    · rw [Layout.move_cells_master_of_ne hh, Layout.move_place_of_ne (by simp [hh])]
      exact hinv.entries h' slot' hgone hlost
  · intro h' slot' f hf
    rw [Layout.move_place_master]
    by_cases ht : KTable.table h' slot' = .table h slot
    · cases ht
      rw [Layout.move_place_self] at hf
      obtain ⟨htype, howner⟩ := moved.newFt f hf
      exact ⟨htype, m, hm, howner⟩
    · rw [Layout.move_place_of_ne ht] at hf
      rw [moved.ksFt _ f ht hf]
      exact hinv.tables h' slot' f hf
  · intro h' m' hm'
    rw [Layout.move_place_master] at hm'
    rw [moved.ksFt (.master h') m' (by simp) hm', moved.pcbs]
    exact hinv.masters h' m' hm'
  · intro h' c hc
    rw [Layout.move_place_master] at hc
    rw [moved.pcbs]
    exact hinv.stored h' c hc
  · intro h' hl
    rw [Layout.move_place_master] at hl
    rw [moved.pcbs]
    exact hinv.newborn h' hl
  · intro h'
    rw [Layout.move_place_master, moved.pcbs]
    exact hinv.live h'
  · intro h' hh'
    rw [moved.nextPcb] at hh'
    obtain ⟨hgone, hslots⟩ := hinv.fresh h' hh'
    refine ⟨by rwa [Layout.move_place_master], fun slot' => ?_⟩
    rw [Layout.move_place_of_ne ?_]
    · exact hslots slot'
    · rintro ⟨⟩
      rw [hm] at hgone
      cases hgone

/-- The kernel state after the master table of process `h`, containing `page`, moved to
`pl`, as far as it is not the ledgers' business. -/
structure MovedMaster (g : Layout) (h : Nat) (pl : Place) (page : Page)
    (s s' : KernelSystem) : Prop where
  alone : ∀ slot f, g.place (.table h slot) ≠ .frame f
  self : imageAt s'.toUserSpace pl = page
  us : s'.toUserSpace = { s.toUserSpace with mem := s'.mem, dvt := s'.dvt, disk := s'.disk }
  others : ∀ t, t ≠ .master h →
    imageAt s'.toUserSpace (g.place t) = imageAt s.toUserSpace (g.place t)
  entries : pl ≠ .gone → pl ≠ .lost →
    ∀ slot, L1Agrees (g.place (.table h slot)) (page (slotCell slot)).toL1
  ksFt : ∀ t f, t ≠ .master h → g.place t = .frame f → s'.ksFt f = s.ksFt f
  inFrame : ∀ f, pl = .frame f → (s'.ksFt f).type = .ksSegTable ∧
    (s'.ksFt f).owner = some (.pcb h) ∧ ∃ p, s'.pcbs h = some p ∧ p.At f
  inCluster : ∀ c, pl = .cluster c →
    ∃ p, s'.pcbs h = some p ∧ p.masterTableValid = false ∧ p.mtDisk = c
  born : pl = .lost → ∃ p, s'.pcbs h = some p ∧ p.masterTableValid = false
  live : s'.pcbs h = none ↔ pl = .gone
  pcbs : ∀ h', h' ≠ h → s'.pcbs h' = s.pcbs h'
  known : h < s'.nextPcb
  nextPcb : s.nextPcb ≤ s'.nextPcb
  krnlspcSize : s'.krnlspcSize = s.krnlspcSize
  ksReserved : s'.ksReserved = s.ksReserved

theorem moveMaster {h : Nat} {pl : Place} {page : Page} (hinv : KernelInv g hand handC s)
    (moved : MovedMaster g h pl page s s')
    (hclusters : Ledger.Exact (· < s.diskSize) (s'.dvt · = true)
      (clusterHolds g.desc s.ot (clusterOf (g.moveMaster h pl page) handC')))
    (hdisk : ∀ v c, clusterHolds g.desc s.ot (clusterOf g handC) (.page v) c →
      s'.disk c = s.disk c)
    (hnodup : s'.ksEmpty.Nodup)
    (hframes : Ledger.Exact s.HasFrame (· ∈ s'.ksEmpty)
      (frameOf (g.moveMaster h pl page) hand'))
    (htyped : ∀ f, (s'.ksFt f).type = .ksPageTable ∨ (s'.ksFt f).type = .ksSegTable →
      s.HasFrame f) :
    KernelInv (g.moveMaster h pl page) hand' handC' s' := by
  have hhas : s'.HasFrame = s.HasFrame := by
    funext f
    simp only [KernelSystem.HasFrame, moved.krnlspcSize, moved.ksReserved]
  have himage : ∀ t, imageAt s'.toUserSpace ((g.moveMaster h pl page).place t) =
      (g.moveMaster h pl page).cells t := by
    intro t
    by_cases ht : t = .master h
    · subst t
      rw [Layout.moveMaster_place_self, Layout.moveMaster_cells_self, moved.self]
    · rw [Layout.moveMaster_place_of_ne ht, moved.others t ht, hinv.image t,
        Layout.moveMaster_cells_of_ne ht]
  refine ⟨?_, moved.krnlspcSize ▸ hinv.krnl_le, hnodup, hhas ▸ hframes, hhas ▸ htyped, himage,
    ?_, ?_, ?_, ?_, ?_, ?_, ?_⟩
  · exact hinv.relocated Layout.moveMaster_desc (fun _ _ => congrFun Layout.moveMaster_addr _)
      (fun _ _ => himage _) hframes moved.us hclusters hdisk
  · intro h' slot hgone hlost
    rw [Layout.moveMaster_place_table]
    by_cases hh : h' = h
    · subst h'
      rw [Layout.moveMaster_place_self] at hgone hlost
      rw [Layout.moveMaster_cells_self]
      exact moved.entries hgone hlost slot
    · have hne : KTable.master h' ≠ .master h := by simpa using hh
      rw [Layout.moveMaster_place_of_ne hne] at hgone hlost
      rw [Layout.moveMaster_cells_of_ne hne]
      exact hinv.entries h' slot hgone hlost
  · intro h' slot f hf
    rw [Layout.moveMaster_place_table] at hf
    have hh : h' ≠ h := by
      rintro rfl
      exact moved.alone slot f hf
    have hne : KTable.master h' ≠ .master h := by simpa using hh
    rw [moved.ksFt _ f (by simp) hf, Layout.moveMaster_place_of_ne hne]
    exact hinv.tables h' slot f hf
  · intro h' m hm
    by_cases hh : h' = h
    · subst h'
      rw [Layout.moveMaster_place_self] at hm
      exact moved.inFrame m hm
    · have hne : KTable.master h' ≠ .master h := by simpa using hh
      rw [Layout.moveMaster_place_of_ne hne] at hm
      rw [moved.ksFt _ m hne hm, moved.pcbs h' hh]
      exact hinv.masters h' m hm
  · intro h' c hc
    by_cases hh : h' = h
    · subst h'
      rw [Layout.moveMaster_place_self] at hc
      exact moved.inCluster c hc
    · rw [Layout.moveMaster_place_of_ne (by simpa using hh)] at hc
      rw [moved.pcbs h' hh]
      exact hinv.stored h' c hc
  · intro h' hl
    by_cases hh : h' = h
    · subst h'
      rw [Layout.moveMaster_place_self] at hl
      exact moved.born hl
    · rw [Layout.moveMaster_place_of_ne (by simpa using hh)] at hl
      rw [moved.pcbs h' hh]
      exact hinv.newborn h' hl
  · intro h'
    by_cases hh : h' = h
    · subst h'
      rw [Layout.moveMaster_place_self]
      exact moved.live
    · rw [Layout.moveMaster_place_of_ne (by simpa using hh), moved.pcbs h' hh]
      exact hinv.live h'
  · intro h' hh'
    have hh : h' ≠ h := by
      rintro rfl
      exact absurd moved.known (by omega)
    obtain ⟨hgone, hslots⟩ := hinv.fresh h' (Nat.le_trans moved.nextPcb hh')
    refine ⟨?_, fun slot => ?_⟩
    · rwa [Layout.moveMaster_place_of_ne (by simpa using hh)]
    · rw [Layout.moveMaster_place_table]
      exact hslots slot

end KernelInv

end VirtualMemory
