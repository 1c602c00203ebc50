import VirtualMemory.PagingRuns
import VirtualMemory.PagingStops

/-!
# A page table goes to the disk and comes back

What was not resident comes back as it was. A resident page is swapped out with its table, so
that its descriptor then names the cluster with its last contents, whatever is faulted on,
evicted and reloaded in the meantime. All that is required is that the faults go through master
tables that are in memory: one that is out is walked all the same, through a stale pointer.
-/

namespace VirtualMemory

open Function UserSpace KernelSystem PageTableL2Entry

/-- Two pages with the same bytes are the same. -/
theorem Page.ext_byte {page page' : Page} (hbytes : ∀ off, page'.byte off = page.byte off) :
    page' = page := by
  funext i
  have hbyte : ∀ byte : Fin 4, (page' i).getByte byte = (page i).getByte byte := by
    intro byte
    have hoff := hbytes ⟨4 * i + byte, by omega⟩
    have hcell : (⟨(4 * i.val + byte.val) / 4, by omega⟩ : Fin 256) = i := by
      apply Fin.ext
      dsimp only
      omega
    have hpart : (⟨(4 * i.val + byte.val) % 4, by omega⟩ : Fin 4) = byte := by
      apply Fin.ext
      dsimp only
      omega
    simpa only [Page.byte, hcell, hpart] using hoff
  have hlow : lowByte (page' i).blockDisk = lowByte (page i).blockDisk := hbyte 0
  have hhigh : highByte (page' i).blockDisk = highByte (page i).blockDisk := hbyte 1
  have hdisk : (page' i).blockDisk = (page i).blockDisk := by
    rw [← twoBytes_low_high (page' i).blockDisk, hlow, hhigh, twoBytes_low_high]
  have hsseg : (page' i).ssegInd = (page i).ssegInd := hbyte 2
  have hflags : (page' i).flags = (page i).flags := hbyte 3
  calc page' i = ⟨(page' i).blockDisk, (page' i).ssegInd, (page' i).flags⟩ := rfl
    _ = page i := by rw [hdisk, hsseg, hflags]

/-- A descriptor that was swapped out names its cluster. -/
theorem swappedOut_block (e : PageTableL2Entry) (cn : Nat) :
    swappedOut e (swappedOut e cn).block = swappedOut e cn := by
  have hblock : (swappedOut e cn).block = cn % 65536 := by simp [swappedOut]
  have hset : e.setBlockDisk (cn % 65536) = e.setBlockDisk cn := by
    unfold PageTableL2Entry.setBlockDisk
    rw [show BitVec.ofNat 16 (cn % 65536) = BitVec.ofNat 16 cn from BitVec.eq_of_toNat_eq (by simp)]
  rw [hblock]
  unfold swappedOut
  rw [hset]

/-- A table is in a frame or in a cluster. -/
def Place.Somewhere (place : Place) : Prop := (∃ f, place = .frame f) ∨ ∃ c, place = .cluster c

theorem Place.Somewhere.ne_lost {place : Place} (hplace : place.Somewhere) : place ≠ .lost := by
  obtain ⟨_, rfl⟩ | ⟨_, rfl⟩ := hplace
  · exact Place.noConfusion
  · exact Place.noConfusion

theorem Place.Somewhere.not_noMaster {g : Layout} {h : Nat}
    (hplace : (g.place (.master h)).Somewhere) : ¬ g.NoMaster h := by
  obtain ⟨_, heq⟩ | ⟨_, heq⟩ := hplace
  · simp [Layout.NoMaster, heq]
  · simp [Layout.NoMaster, heq]

/-- What a page table in frame `k` is once it was swapped out and is in frame `f`. -/
structure TableBack (s : KernelSystem) (k : Nat) (s' : KernelSystem) (f : Nat) : Prop where
  kept : ∀ i, ¬ (s.mem ⟨k, i⟩).Resident → s'.mem ⟨f, i⟩ = s.mem ⟨k, i⟩
  paged : ∀ i, (s.mem ⟨k, i⟩).Resident → ∃ cn, s'.mem ⟨f, i⟩ = swappedOut (s.mem ⟨k, i⟩) cn ∧
    cn < s'.diskSize ∧ s'.dvt cn = false ∧ s'.disk cn = s.userspc (s.mem ⟨k, i⟩).block

namespace KernelSystem

/-- The page table of a slot is paged out, to cluster `c`, which is in use. -/
def InCluster (s : KernelSystem) (h : Nat) (slot : Fin 64) (c : Nat) : Prop :=
  ∃ e, s.slotEntry h slot = some e ∧ e.status = PageTableL1Entry.statusPagedOut ∧ e.block = c ∧
    s.dvt c = false

/-- A page has a descriptor, in memory or on the disk. -/
def HasTable (s : KernelSystem) (v : LPage) : Prop :=
  ∃ g, KernelInv g noHand noHand s ∧ g.Sound ∧
    (g.place (.master v.proc)).Somewhere ∧ (g.place (.table v.proc v.slot)).Somewhere

/-- The frame that is evicted next, if any, has neither the page table nor the master table of
a page. -/
def LeavesTable (s : KernelSystem) (v : LPage) : Prop :=
  ∀ f ∈ s.victimFrame, ¬ s.InFrame v.proc v.slot f ∧
    ∀ p, s.pcbs v.proc = some p → p.masterTableValid = true → p.masterTable ≠ f

end KernelSystem

/-- The page table of a slot leaves frame `k` between `s` and `s₁` and comes back between `s₂`
and `s₃`. -/
structure TableTrip (h : Nat) (slot : Fin 64) (k : Nat) (s s₁ s₂ s₃ : KernelSystem) : Prop where
  back : ∃ f, s₃.InFrame h slot f ∧ TableBack s k s₃ f
  freed : ∀ i, (s.mem ⟨k, i⟩).Resident → (s.mem ⟨k, i⟩).block ∉ s.usEmpty ∧
    s₁.usEmpty.count (s.mem ⟨k, i⟩).block = 1
  frame : s₁.ksEmpty = s.ksEmpty ++ [k]
  cluster : ∃ c, s.dvt c = true ∧ s₁.InCluster h slot c ∧ s₂.InCluster h slot c ∧ s₃.dvt c = true
  others_out : ∀ v : LPage, KTable.table v.proc v.slot ≠ .table h slot → s.HasTable v →
    s₁.descriptor v = s.descriptor v
  others_in : ∀ v : LPage, KTable.table v.proc v.slot ≠ .table h slot → s₂.HasTable v →
    s₂.LeavesTable v → s₃.descriptor v = s₂.descriptor v

namespace KernelInv

variable {g g' : Layout} {s s' : KernelSystem} {h : Nat} {slot : Fin 64} {c : Nat} {v : LPage}

theorem inCluster_of_place (hinv : KernelInv g noHand noHand s)
    (hnone : ¬ g.NoMaster h) (hc : g.place (.table h slot) = .cluster c) :
    s.InCluster h slot c := by
  obtain ⟨e, he, hagree⟩ := hinv.slotEntry_agrees slot hnone
  rw [hc] at hagree
  refine ⟨e, he, hagree.1, hagree.2, ?_⟩
  have hused := hinv.user.clusters.ledger.not_free
    (r := ClusterHolder.ext (V := LPage) (KHolder.table (.table h slot))) (c := c) hc
  simpa using hused

/-- Where the tables of a page stay put, its descriptor stays as it is in the layout. -/
theorem descriptor_stays (hinv : KernelInv g noHand noHand s)
    (hinv' : KernelInv g' noHand noHand s')
    (hmaster : (g.place (.master v.proc)).Somewhere)
    (htable : (g.place (.table v.proc v.slot)).Somewhere)
    (hsame : g'.place (.master v.proc) = g.place (.master v.proc))
    (hsame' : g'.place (.table v.proc v.slot) = g.place (.table v.proc v.slot))
    (hdesc : g'.desc v = g.desc v) : s'.descriptor v = s.descriptor v := by
  have hnone : ¬ g.NoMaster v.proc := hmaster.not_noMaster
  have hnone' : ¬ g'.NoMaster v.proc := by
    rwa [Layout.NoMaster, hsame]
  rw [hinv.descriptor_eq hnone htable.ne_lost, hinv'.descriptor_eq hnone' (hsame' ▸ htable.ne_lost),
    hsame', hdesc]

/-- The frame of a page whose page table was swapped out is free, once. -/
theorem freed_once (hinv : KernelInv g noHand noHand s) (hinv' : KernelInv g' noHand noHand s')
    (hres : (g.desc v).Resident) (hout : g'.place (.table v.proc v.slot) = .cluster c)
    (hsize : s'.userspcSize = s.userspcSize)
    (hothers : ∀ u : LPage, KTable.table u.proc u.slot ≠ .table v.proc v.slot →
      g'.desc u = g.desc u) :
    (g.desc v).block ∉ s.usEmpty ∧ s'.usEmpty.count (g.desc v).block = 1 := by
  have hlt := hinv.user.frames.typed _ (hinv.user.frames.owner v hres).1
  refine ⟨hinv.user.frames.ledger.not_free (r := .page v) ⟨hres, rfl⟩, ?_⟩
  refine List.count_eq_one_of_mem hinv'.user.frames.nodup ?_
  by_contra hused
  obtain ⟨holder, hholds⟩ := hinv'.user.frames.ledger.covered (hsize ▸ hlt) hused
  cases holder with
  | hand n => exact hholds.1
  | page u =>
      obtain ⟨hr, hblock⟩ := hholds
      by_cases hsame : KTable.table u.proc u.slot = .table v.proc v.slot
      · obtain ⟨x, hx⟩ := hinv'.resident_frame hr
        rw [hsame, hout] at hx
        cases hx
      · rw [Layout.view_desc, hothers u hsame] at hr hblock
        have heq := hinv.user.frames.ledger.inj (r := .page u) (q := .page v) ⟨hr, hblock⟩
          ⟨hres, rfl⟩
        cases heq
        exact hsame rfl

end KernelInv

namespace KernelInv

variable {g : Layout} {s s' : KernelSystem} {h addr : Nat} {lock : Bool}

/-- With a frame to be had, a page table cannot come back only where its pages' evictions find
no cluster. -/
theorem reload_full {halt : Halt} (hinv : KernelInv g noHand noHand s) (hsound : g.Sound)
    (htable : s.TableOut h addr) (hopen : s.unlockedFrame = true) (hdice : s.dice ≠ [])
    (hreload : s.reload h addr lock = .error halt) : halt.isDiskFull = true := by
  obtain ⟨m, hm⟩ := hinv.hasMaster_iff.mp htable.master
  obtain ⟨c, hc⟩ := hinv.tableOut_cluster hsound htable
  rw [hinv.reload_eq hm hc] at hreload
  exact hinv.fetchPageTable_full hopen hdice hreload

end KernelInv

section Journey

variable {g g₁ g₂ g₃ : Layout} {s s₁ s₂ s₃ : KernelSystem} {h : Nat} {slot : Fin 64}
  {c f k : Nat}

/-- What the table was, after it was evicted into cluster `c` and reloaded into frame `f`. -/
theorem KernelInv.tableBack (hinv : KernelInv g noHand noHand s)
    (hinv₁ : KernelInv g₁ noHand noHand s₁) (hinv₃ : KernelInv g₃ noHand noHand s₃)
    (hk : g.place (.table h slot) = .frame k) (hc : g₁.place (.table h slot) = .cluster c)
    (hf : g₃.place (.table h slot) = .frame f)
    (hout : ∀ i, Kept s.toUserSpace (g.desc ⟨h, slot, i⟩) s₁.toUserSpace (g₁.desc ⟨h, slot, i⟩))
    (hsame : ∀ i, g₃.desc ⟨h, slot, i⟩ = g₁.desc ⟨h, slot, i⟩)
    (hbytes : ∀ i p, s₁.content (g₁.desc ⟨h, slot, i⟩) = some p →
      s₃.content (g₃.desc ⟨h, slot, i⟩) = some p) : TableBack s k s₃ f := by
  have hold : ∀ i, s.mem ⟨k, i⟩ = g.desc ⟨h, slot, i⟩ := fun i =>
    hinv.user.frames.link ⟨h, slot, i⟩ _ (Layout.addr_of_frame hk i)
  have hnew : ∀ i, s₃.mem ⟨f, i⟩ = g₃.desc ⟨h, slot, i⟩ := fun i =>
    hinv₃.user.frames.link ⟨h, slot, i⟩ _ (Layout.addr_of_frame hf i)
  have haway : ∀ i, ¬ (g₁.desc ⟨h, slot, i⟩).Resident := fun i hr => by
    obtain ⟨x, hx⟩ := hinv₁.resident_frame hr
    cases hc.symm.trans hx
  constructor
  · intro i hnot
    rw [hold] at hnot
    rw [hold, hnew, hsame]
    exact (hout i).desc_eq hnot
  · intro i hres
    rw [hold] at hres ⊢
    obtain ⟨heq | ⟨_, cn, heq⟩, hcontent⟩ := hout i
    · exact absurd (heq ▸ hres) (haway i)
    · have hpaged : (g₃.desc ⟨h, slot, i⟩).PagedOut := by
        rw [hsame, heq]
        exact pagedOut_swappedOut hres (hinv.user.clusters.shape _) cn
      have hholds : clusterHolds g₃.view.desc s₃.ot (clusterOf g₃ noHand)
          (.page ⟨h, slot, i⟩) (g₃.desc ⟨h, slot, i⟩).block := .inr ⟨hpaged, rfl⟩
      have hlast := hbytes i _ (hcontent.trans (content_resident hres))
      rw [content_pagedOut hpaged] at hlast
      refine ⟨(g₃.desc ⟨h, slot, i⟩).block, ?_, hinv₃.user.clusters.ledger.holds_dom hholds, ?_,
        Option.some.inj hlast⟩
      · rw [hnew, hsame, heq, swappedOut_block]
      · simpa using hinv₃.user.clusters.ledger.not_free hholds

/-- A run that leaves a page table on the disk, and stores into none of its pages. -/
def PagingOp.StepAway (levels h : Nat) (slot : Fin 64) :
    KernelSystem → PagingOp → KernelSystem → Prop :=
  PagingOp.Step levels (fun v _ => KTable.table v.proc v.slot = .table h slot) (· = .table h slot)

/-- An eviction of a page table leaves the descriptors in the others as they are. -/
theorem KernelSystem.HasTable.kept_out {depth : Nat} {v : LPage} (htable : s.HasTable v)
    (hne : KTable.table v.proc v.slot ≠ .table h slot) (hmaster : s.HasMaster h)
    (hin : s.InFrame h slot k) (hswap : ksSwapOut depth s ⟨k, true, nullCluster⟩ = .ok s₁) :
    s₁.descriptor v = s.descriptor v := by
  obtain ⟨g, hinv, _, hm, ht⟩ := htable
  obtain ⟨m, hmaster⟩ := hinv.hasMaster_iff.mp hmaster
  have hk := (hinv.inFrame_iff (KernelInv.not_noMaster hmaster)).mp hin
  obtain ⟨g₁, c, hinv₁, hevicted, _, _, _, hothers⟩ := hinv.ksSwapOut_table hk hswap
  exact hinv.descriptor_stays hinv₁ hm ht (hevicted.place _ (fun heq => by cases heq))
    (hevicted.place _ hne) (hothers v hne)

/-- A reload of a page table leaves the descriptors in the others as they are, but for what is
evicted to make room. -/
theorem KernelSystem.HasTable.kept_in {addr : Nat} {lock : Bool} {v : LPage}
    (htable : s.HasTable v) (hne : KTable.table v.proc v.slot ≠ .table h (slotOf addr))
    (hleaves : s.LeavesTable v) (hout : s.TableOut h addr)
    (hreload : s.reload h addr lock = .ok s₁) : s₁.descriptor v = s.descriptor v := by
  obtain ⟨g, hinv, hsound, hm, ht⟩ := htable
  obtain ⟨g₁, c, f, hinv₁, _, hreloaded⟩ := hinv.reload_inv hsound hout hreload
  have hnot : ¬ MakesRoom g s (.master v.proc) := by
    rintro ⟨x, hx, hplace | ⟨_, _, heq, _⟩⟩
    · obtain ⟨p, _, hp, hat⟩ := hinv.pcb_ok hplace
      exact (hleaves x hx).2 p hp hat.valid hat.masterTable
    · cases heq
  have hnot' : ¬ MakesRoom g s (.table v.proc v.slot) := by
    rintro ⟨x, hx, hplace | ⟨y, slot, heq, hplace⟩⟩
    · exact (hleaves x hx).1 ((hinv.inFrame_iff hm.not_noMaster).mpr hplace)
    · cases heq
      exact hnot ⟨x, hx, .inl hplace⟩
  exact hinv.descriptor_stays hinv₁ hm ht
    (hreloaded.room.stay _ (fun heq => by cases heq) hnot) (hreloaded.room.stay _ hne hnot')
    (hreloaded.others v hnot')

/-- Out, away and back. -/
theorem tableTrip_of_run {levels depth addr : Nat} (lock : Bool) {ops : List PagingOp}
    (hinv : KernelInv g noHand noHand s) (hsound : g.Sound)
    (hk : g.place (.table h (slotOf addr)) = .frame k)
    (hswap : ksSwapOut depth s ⟨k, true, nullCluster⟩ = .ok s₁)
    (hrun : Run (PagingOp.StepAway levels h (slotOf addr)) s₁ ops s₂)
    (hmaster : s₂.HasMaster h)
    (hstays : ∀ p, s₂.pcbs h = some p → s₂.victimFrame ≠ some p.masterTable) :
    s₂.TableOut h addr ∧ ∀ s₃, s₂.reload h addr lock = .ok s₃ →
      TableTrip h (slotOf addr) k s s₁ s₂ s₃ := by
  obtain ⟨_, m, hm, _⟩ := hinv.tables h (slotOf addr) k hk
  have hin := (hinv.inFrame_iff (KernelInv.not_noMaster hm)).mpr hk
  obtain ⟨g₁, c, hinv₁, hevicted, hc, hfree, hframe, hothers⟩ := hinv.ksSwapOut_table hk hswap
  have hm₁ : g₁.place (.master h) = .frame m :=
    (hevicted.place _ (fun heq => by cases heq)).trans hm
  have hsound₁ : g₁.Sound := hevicted.sound hsound
  obtain ⟨g₂, hinv₂, hpassed⟩ := PagingOp.passed_of_run hinv₁ hsound₁ hrun
  have hsound₂ := hpassed.sound hsound₁
  obtain ⟨hc₂, hdesc₂⟩ := hpassed.stored h (slotOf addr) c rfl hc
  obtain ⟨m₂, hm₂⟩ := hinv₂.hasMaster_iff.mp hmaster
  have hcluster₂ := hinv₂.inCluster_of_place (KernelInv.not_noMaster hm₂) hc₂
  have hout : s₂.TableOut h addr := by
    obtain ⟨e, he, hstatus, _⟩ := hcluster₂
    exact ⟨hmaster, ⟨e, he, hstatus⟩, hstays⟩
  refine ⟨hout, fun s₃ hreload => ?_⟩
  obtain ⟨g₃, c', f, hinv₃, ⟨m₃, hm₃⟩, hreloaded⟩ := hinv₂.reload_inv hsound₂ hout hreload
  cases hc₂.symm.trans hreloaded.cluster
  have hkept : ∀ i : Fin 256, Kept s₂.toUserSpace (g₂.desc ⟨h, slotOf addr, i⟩) s₃.toUserSpace
      (g₃.desc ⟨h, slotOf addr, i⟩) := fun i => hreloaded.paged.pages _ id
  have hsame : ∀ i, g₃.desc ⟨h, slotOf addr, i⟩ = g₁.desc ⟨h, slotOf addr, i⟩ := by
    intro i
    refine ((hkept i).desc_eq fun hr => ?_).trans (hdesc₂ i)
    obtain ⟨x, hx⟩ := hinv₂.resident_frame hr
    cases hc₂.symm.trans hx
  have hbytes : ∀ i p, s₁.content (g₁.desc ⟨h, slotOf addr, i⟩) = some p →
      s₃.content (g₃.desc ⟨h, slotOf addr, i⟩) = some p := by
    intro i p hp
    obtain ⟨p', hp', hbyte⟩ := hpassed.bytes _ p hp
    rw [(hkept i).2, hp', Page.ext_byte fun off => hbyte off rfl]
  refine ⟨⟨f, (hinv₃.inFrame_iff (KernelInv.not_noMaster hm₃)).mpr hreloaded.frame, ?_⟩, ?_, hframe,
    ⟨c, hfree, hinv₁.inCluster_of_place (KernelInv.not_noMaster hm₁) hc, hcluster₂,
      hreloaded.free⟩, ?_, ?_⟩
  · exact hinv.tableBack hinv₁ hinv₃ hk hc hreloaded.frame (fun i => hevicted.pages _) hsame hbytes
  · intro i hres
    have hlink : s.mem ⟨k, i⟩ = g.desc ⟨h, slotOf addr, i⟩ :=
      hinv.user.frames.link ⟨h, slotOf addr, i⟩ _ (Layout.addr_of_frame hk i)
    rw [hlink] at hres ⊢
    exact hinv.freed_once hinv₁ hres hc hevicted.objects.userspcSize hothers
  · exact fun v hne htable =>
      htable.kept_out hne (hinv.hasMaster_iff.mpr ⟨m, hm⟩) hin hswap
  · exact fun v hne htable hleaves => htable.kept_in hne hleaves hout hreload

end Journey

/-- A page table that is present is swapped out, whatever goes on meanwhile, and reloaded. -/
theorem table_roundTrip {s : KernelSystem} {h k : Nat} (addr : Nat) (hcons : s.Consistent)
    (hmaster : s.HasMaster h) (hin : s.InFrame h (slotOf addr) k) (depth : Nat) :
    (∃ halt, ksSwapOut (depth + 2) s ⟨k, true, nullCluster⟩ = .error halt ∧
      halt.isDiskFull = true) ∨
    ∃ s₁, ksSwapOut (depth + 2) s ⟨k, true, nullCluster⟩ = .ok s₁ ∧
      ∀ levels ops s₂, Run (PagingOp.StepAway levels h (slotOf addr)) s₁ ops s₂ →
        s₂.HasMaster h → (∀ p, s₂.pcbs h = some p → s₂.victimFrame ≠ some p.masterTable) →
        s₂.unlockedFrame = true → s₂.dice ≠ [] → ∀ lock,
          (∃ halt, s₂.reload h addr lock = .error halt ∧ halt.isDiskFull = true) ∨
          ∃ s₃, s₂.reload h addr lock = .ok s₃ ∧ TableTrip h (slotOf addr) k s s₁ s₂ s₃ := by
  obtain ⟨g, hinv, hsound⟩ := hcons
  obtain ⟨m, hm⟩ := hinv.hasMaster_iff.mp hmaster
  have hk := (hinv.inFrame_iff (KernelInv.not_noMaster hm)).mp hin
  cases hswap : ksSwapOut (depth + 2) s ⟨k, true, nullCluster⟩ with
  | error halt => exact .inl ⟨halt, rfl, hinv.ksSwapOut_full hk rfl hswap⟩
  | ok s₁ =>
      refine .inr ⟨s₁, rfl, ?_⟩
      intro levels ops s₂ hrun hmaster₂ hstays hopen hdice lock
      obtain ⟨hout, htrip⟩ :=
        tableTrip_of_run lock hinv hsound hk hswap hrun hmaster₂ hstays
      obtain ⟨g₁, _, hinv₁, hevicted, _⟩ := hinv.ksSwapOut_table hk hswap
      obtain ⟨g₂, hinv₂, hpassed⟩ :=
        PagingOp.passed_of_run hinv₁ (hevicted.sound hsound) hrun
      cases hreload : s₂.reload h addr lock with
      | error halt =>
          exact .inl ⟨halt, rfl, hinv₂.reload_full
            (hpassed.sound (hevicted.sound hsound)) hout hopen hdice hreload⟩
      | ok s₃ => exact .inr ⟨s₃, rfl, htrip s₃ hreload⟩

namespace KernelSystem

/-- A fault on a page that turns out to be private goes through one page table. -/
theorem faultsIn_private {s : KernelSystem} {h addr : Nat} {depth : Nat} (hmaster : s.HasMaster h)
    (hinseg : s.InSegment (pageOf h addr))
    (hprivate : Outcome.holds (s.faultTable h addr) (fun r => !(r.2.mem r.1).getShared) = true) :
    s.FaultsIn (depth + 1) h addr ∧
      ∀ t, t ≠ .table h (slotOf addr) → s.FaultsOutside t (depth + 1) h addr := by
  have hnot : ∀ ptl2e s₁, s.faultTable h addr = .ok (ptl2e, s₁) →
      (s₁.mem ptl2e).getShared ≠ true := by
    intro ptl2e s₁ htable
    rw [htable] at hprivate
    simpa [Outcome.holds] using hprivate
  constructor
  · exact ⟨hmaster, hinseg, fun ptl2e s₁ d htable hshared => absurd hshared (hnot ptl2e s₁ htable)⟩
  · exact fun t ht => ⟨ht, fun ptl2e s₁ d htable hshared => absurd hshared (hnot ptl2e s₁ htable)⟩

/-- A test that the page table of a slot is in frame `f`, under a master table in memory. -/
def tableInFrame (s : KernelSystem) (h : Nat) (slot : Fin 64) (f : Nat) : Bool :=
  decide (s.HasMaster h) && (s.slotEntry h slot).any fun e =>
    decide (e.status = PageTableL1Entry.statusPresent) && decide (e.block = f)

theorem inFrame_of_test {s : KernelSystem} {h f : Nat} {slot : Fin 64}
    (htest : s.tableInFrame h slot f = true) : s.HasMaster h ∧ s.InFrame h slot f := by
  simp only [tableInFrame, Bool.and_eq_true, decide_eq_true_eq, Option.any_eq_true] at htest
  obtain ⟨hmaster, e, he, hstatus, hblock⟩ := htest
  exact ⟨hmaster, e, he, hstatus, hblock⟩

end KernelSystem

/-- The table of a resident page, out while another process faults on its own. -/
theorem table_roundTrip_fault : ∃ s s₁ s₂ s₃, PagingOp.StepAway 1 0 0 s₁ (.pageFault 1 0) s₂ ∧
    TableTrip 0 0 5 s s₁ s₂ s₃ := by
  have hruns : (KernelOp.runSmall KernelOp.settling 2 4 16 [0]
      [.createProcess, .createSegment 0 0 1 .readWrite, .pageFault 0 0, .createProcess,
        .createSegment 1 0 1 .readWrite]).any (fun r =>
      decide (r.1.userspcSize ≤ 65536) && decide (r.1.krnlspcSize ≤ 65536) &&
      r.2.tableInFrame 0 0 5 &&
      Outcome.holds (ksSwapOut 2 r.2 ⟨5, true, nullCluster⟩) fun s₁ =>
        decide (s₁.HasMaster 1) && decide (s₁.InSegment (pageOf 1 0)) &&
        Outcome.holds (s₁.faultTable 1 0) (fun r => !(r.2.mem r.1).getShared) &&
        Outcome.holds (s₁.pageFault 1 1 0) fun s₂ =>
          decide (s₂.HasMaster 0) &&
          (s₂.pcbs 0).all (fun p => decide (s₂.victimFrame ≠ some p.masterTable)) &&
          s₂.unlockedFrame && !s₂.dice.isEmpty &&
          Outcome.holds (s₂.reload 0 0 false) fun _ => true) = true := by
    decide +kernel
  obtain ⟨⟨start, s⟩, hr, hcheck⟩ := (Option.any_eq_true _ _).mp hruns
  simp only [Bool.and_eq_true, decide_eq_true_eq] at hcheck
  obtain ⟨⟨⟨huser, hkrnl⟩, htable⟩, hswap⟩ := hcheck
  obtain ⟨hmaster, hin⟩ := inFrame_of_test htable
  obtain ⟨s₁, hswap, hcheck⟩ := Outcome.of_holds hswap
  simp only [Bool.and_eq_true, decide_eq_true_eq] at hcheck
  obtain ⟨⟨⟨hmaster₁, hinseg⟩, hprivate⟩, hfault⟩ := hcheck
  obtain ⟨s₂, hfault, hcheck⟩ := Outcome.of_holds hfault
  simp only [Bool.and_eq_true, decide_eq_true_eq, Bool.not_eq_true', List.isEmpty_eq_false_iff]
    at hcheck
  obtain ⟨⟨⟨⟨hmaster₂, hstays⟩, hopen⟩, hdice⟩, hreload⟩ := hcheck
  obtain ⟨s₃, hreload, _⟩ := Outcome.of_holds hreload
  obtain ⟨hfaults, houtside⟩ := faultsIn_private hmaster₁ hinseg hprivate
  have hstep : PagingOp.StepAway 1 0 0 s₁ (.pageFault 1 0) s₂ := by
    refine ⟨hfaults, fun _ _ _ => trivial, ?_, hfault⟩
    rintro _ rfl
    exact houtside _ (by decide)
  obtain ⟨halt, hhalt, _⟩ | ⟨_, hswap', htrip⟩ := table_roundTrip 0
    (KernelOp.consistent_of_settling hr huser hkrnl) hmaster hin 0
  · cases hhalt.symm.trans hswap
  · cases hswap.symm.trans hswap'
    obtain ⟨halt, hhalt, _⟩ | ⟨_, hreload', htrip⟩ := htrip 1 _ s₂ (.cons hstep (.nil _)) hmaster₂
      (fun p hp => by simpa [hp] using hstays) hopen hdice false
    · cases hhalt.symm.trans hreload
    · exact ⟨s, s₁, s₂, _, hstep, htrip⟩

/-- A process whose master table is brought back walks, on its own page, the table of another
process, which is on the disk. -/
theorem table_not_roundTrip : ¬ ∀ (s s₁ s₂ s₃ : KernelSystem) (h addr k levels : Nat)
    (ops : List PagingOp), s.Consistent → s.HasMaster h → s.InFrame h (slotOf addr) k →
    ksSwapOut 2 s ⟨k, true, nullCluster⟩ = .ok s₁ →
    Run (fun s op s' => (∃ h' addr', op = .pageFault h' addr' ∧ s.InSegment (pageOf h' addr') ∧
      KTable.table h' (slotOf addr') ≠ .table h (slotOf addr)) ∧
      op.exec levels s = .ok s') s₁ ops s₂ →
    s₂.HasMaster h → s₂.reload h addr true = .ok s₃ →
    ∀ f i, s₃.InFrame h (slotOf addr) f → ¬ (s.mem ⟨k, i⟩).Resident →
      s₃.mem ⟨f, i⟩ = s.mem ⟨k, i⟩ := by
  intro hall
  have hruns : (KernelOp.runSmall KernelOp.settling 2 3 16 [1, 0, 1, 2]
      [.createProcess, .createSegment 0 0 1 .readWrite, .createProcess, .createProcess,
        .createProcess, .createSegment 3 0 1 .readWrite]).any (fun r =>
      decide (r.1.userspcSize ≤ 65536) && decide (r.1.krnlspcSize ≤ 65536) &&
      r.2.tableInFrame 3 0 5 && (r.2.mem ⟨5, 0⟩).getTbc && !(r.2.mem ⟨5, 0⟩).getValid &&
      Outcome.holds (ksSwapOut 2 r.2 ⟨5, true, nullCluster⟩) fun s₁ =>
        decide (s₁.InSegment (pageOf 0 0)) && Outcome.holds (s₁.pageFault 2 0 0) fun s₂ =>
          decide (s₂.HasMaster 3) && Outcome.holds (s₂.reload 3 0 true) fun s₃ =>
            s₃.tableInFrame 3 0 6 && !(s₃.mem ⟨6, 0⟩).getTbc) = true := by
    decide +kernel
  obtain ⟨⟨start, s⟩, hr, hcheck⟩ := (Option.any_eq_true _ _).mp hruns
  simp only [Bool.and_eq_true, Bool.not_eq_true', decide_eq_true_eq] at hcheck
  obtain ⟨⟨⟨⟨⟨huser, hkrnl⟩, htable⟩, htbc⟩, hvalid⟩, hswap⟩ := hcheck
  obtain ⟨hmaster, hin⟩ := inFrame_of_test htable
  obtain ⟨s₁, hswap, hcheck⟩ := Outcome.of_holds hswap
  simp only [Bool.and_eq_true, decide_eq_true_eq] at hcheck
  obtain ⟨hinseg, hfault⟩ := hcheck
  obtain ⟨s₂, hfault, hcheck⟩ := Outcome.of_holds hfault
  simp only [Bool.and_eq_true, decide_eq_true_eq] at hcheck
  obtain ⟨hmaster₂, hreload⟩ := hcheck
  obtain ⟨s₃, hreload, hcheck⟩ := Outcome.of_holds hreload
  simp only [Bool.and_eq_true, Bool.not_eq_true'] at hcheck
  obtain ⟨htable₃, hresident⟩ := hcheck
  have hsame := hall s s₁ s₂ s₃ 3 0 5 2 [.pageFault 0 0]
    (KernelOp.consistent_of_settling hr huser hkrnl) hmaster hin hswap
    (.cons ⟨⟨0, 0, rfl, hinseg, by decide⟩, hfault⟩ (.nil _)) hmaster₂ hreload 6 0
    (inFrame_of_test htable₃).2 (fun hr => by simp [hr.2] at hvalid)
  rw [hsame, htbc] at hresident
  cases hresident

end VirtualMemory
