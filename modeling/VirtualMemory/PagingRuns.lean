import VirtualMemory.WriteBack

/-!
# Runs that neither make nor remove a segment

Faults, accesses and stores through addresses, evictions of user pages and page tables, and
reloads of page tables, in any order. Rights and mappings stay as they are, what an address
leads to stays the same page, and a byte keeps its value until it is stored to, whichever frames
and clusters its page goes through.
-/

namespace VirtualMemory

open Function UserSpace KernelSystem PageTableL2Entry

/-- The place in its page of the byte at an address. -/
def offsetOf (addr : Nat) : Fin 1024 := ⟨addr % 1024, Nat.mod_lt _ (by decide)⟩

namespace KernelSystem

/-- The private page that an address leads to, through the mappings that it lies in. -/
def resolve : Nat → KernelSystem → Nat → Nat → Option LPage
  | 0, _, _, _ => none
  | depth + 1, s, h, addr => (s.descriptor (pageOf h addr)).bind fun e =>
      if e.getShared then (s.ssegVec.atIndex e.ssegInd.toNat).toOption.bind fun d =>
        resolve depth s d (ssegAddr e addr)
      else some (pageOf h addr)

/-- What a private page contains. -/
def holds (s : KernelSystem) (v : LPage) : Option Page := (s.descriptor v).bind s.content

/-- A process stores a byte: it asks for WRITE access, and where that is granted it writes
through the address that `get_pa` gives. -/
def storeThrough (depth : Nat) (s : KernelSystem) (pid addr : Nat) (value : BitVec 8) :
    Except Halt KernelSystem := do
  let h ← s.accessPcb pid
  let (status, s) ← s.access depth pid addr .write false
  if status = .ok then do
    match ← s.getPa depth h addr with
    | none => .ok s
    | some (f, offset) => .ok (s.withUser (s.storeByte f (offsetOf offset) value))
  else .ok s

end KernelSystem

/-- The page that an address leads to is the one that it resolves to. -/
theorem Leads.resolve_eq {g : Layout} {s : KernelSystem} {depth h addr : Nat} {v : LPage}
    (hinv : KernelInv g noHand noHand s) (hsound : g.Sound) (hleads : Leads g s depth h addr v) :
    s.resolve depth h addr = some v := by
  induction hleads with
  | @page depth h addr f hm hf hr _ =>
      obtain ⟨m, hm⟩ := hm
      rw [resolve, hinv.descriptor_at hsound hm addr (by simp [hf]), Option.bind_some,
        if_neg (by simp [hr.1])]
  | @shared depth h addr f d v hm hf hshared hsegment _ ih =>
      obtain ⟨m, hm⟩ := hm
      rw [resolve, hinv.descriptor_at hsound hm addr (by simp [hf]), Option.bind_some,
        if_pos hshared, hsegment]
      exact ih

/-- Every byte but the one of page `v` at `addr`. -/
def Elsewhere (v : LPage) (addr : Nat) (u : LPage) (off : Fin 1024) : Prop :=
  u = v → off ≠ offsetOf addr

namespace KernelInv

variable {g : Layout} {s s' : KernelSystem} {h addr depth pid : Nat} {value : BitVec 8}

/-- A store that is granted changes the byte of the page that the address resolves to. -/
theorem storeThrough_granted {s₁ : KernelSystem} (hinv : KernelInv g noHand noHand s)
    (hsound : g.Sound) (hmasters : MastersIn depth s h addr) (hpcb : s.accessPcb pid = .ok h)
    (haccess : access depth s pid addr .write false = .ok (.ok, s₁))
    (hstore : s.storeThrough depth pid addr value = .ok s') :
    ∃ v g' p, s.resolve depth h addr = some v ∧ KernelInv g' noHand noHand s' ∧
      Passed (Elsewhere v addr) (fun _ => True) g s g' s' ∧
      s'.content (g'.desc v) = some p ∧ p.byte (offsetOf addr) = value := by
  obtain ⟨g₁, hinv₁, hpassed, hgranted⟩ := hinv.access_passed hsound hmasters hpcb haccess
  obtain ⟨v, hleads, hmarked⟩ := hgranted rfl
  have hleads₁ : Leads g₁ s₁ depth h addr v :=
    hleads.congr hmarked.place hmarked.ssegVec hmarked.desc_or
  have hdirty : (g₁.desc v).getDirty = true := by
    rw [hmarked.desc, if_pos rfl]
    simp
  have hs' : s' = s₁.withUser (s₁.storeByte (g₁.desc v).block (offsetOf addr) value) := by
    simp only [storeThrough, hpcb, Outcome.ok_bind, haccess, if_true, hleads₁.getPa_eq hinv₁,
      offsetOf, pageSize, Nat.mod_mod] at hstore
    exact (Except.ok.inj hstore).symm
  obtain ⟨huser, hbut, hcontent⟩ :=
    storeByte_inv hinv₁.user hleads₁.resident hdirty (offsetOf addr) value
  obtain ⟨f, hf⟩ := hinv₁.resident_frame hleads₁.resident
  obtain ⟨hinv', hcarried, hobjects⟩ := hinv₁.userStep hf huser hbut
  rw [hs']
  refine ⟨v, _, _, hleads.resolve_eq hinv hsound, hinv', ?_, hcontent, ?_⟩
  · refine (hpassed.mono (fun _ _ _ => trivial) fun _ => id).trans
      (.of_carried hinv₁ hcarried hobjects ?_ ?_ ?_ ?_)
    · rintro _ rfl
      exact .refl _
    · rintro _ rfl _
      rfl
    · rintro _ rfl p hp
      rw [content_resident hleads₁.resident] at hp
      obtain rfl := Option.some.inj hp
      refine ⟨_, hcontent, fun off hoff => ?_⟩
      rw [Page.byte_store, if_neg (hoff rfl)]
      rfl
    · intro x slot c _ hc
      exact ⟨hc, fun i _ => rfl⟩
  · rw [Page.byte_store, if_pos rfl]

/-- A store that is not granted changes no byte. -/
theorem storeThrough_passed (hinv : KernelInv g noHand noHand s) (hsound : g.Sound)
    (hmasters : ∀ h, s.accessPcb pid = .ok h → MastersIn depth s h addr)
    (hstore : s.storeThrough depth pid addr value = .ok s') :
    ∃ g', KernelInv g' noHand noHand s' ∧
      Passed (fun v off => ∀ h, s.accessPcb pid = .ok h → s.resolve depth h addr = some v →
        off ≠ offsetOf addr) (fun _ => True) g s g' s' := by
  obtain ⟨h, hpcb, hrest⟩ := Outcome.bind_ok hstore
  obtain ⟨⟨status, s₁⟩, haccess, hrest⟩ := Outcome.bind_ok hrest
  by_cases hok : status = .ok
  · subst status
    obtain ⟨v, g', _, hresolve, hinv', hpassed, _⟩ :=
      hinv.storeThrough_granted hsound (hmasters h hpcb) hpcb haccess hstore
    refine ⟨g', hinv', hpassed.mono (fun u off hoff huv => ?_) fun _ => id⟩
    exact hoff h hpcb (huv ▸ hresolve)
  · dsimp only at hrest
    rw [if_neg hok] at hrest
    cases hrest
    obtain ⟨g', hinv', hpassed, _⟩ := hinv.access_passed hsound (hmasters h hpcb) hpcb haccess
    exact ⟨g', hinv', hpassed.mono (fun _ _ _ => trivial) fun _ => id⟩

/-- The swap-out of a page table: its pages leave memory with it, and nothing else does. -/
theorem ksSwapOut_table {slot : Fin 64} {k : Nat} (hinv : KernelInv g noHand noHand s)
    (hk : g.place (.table h slot) = .frame k)
    (hswap : ksSwapOut depth s ⟨k, true, nullCluster⟩ = .ok s') :
    ∃ g' c, KernelInv g' noHand noHand s' ∧ Evicted (· = .table h slot) g s g' s' ∧
      g'.place (.table h slot) = .cluster c ∧ s.dvt c = true ∧
      s'.ksEmpty = s.ksEmpty ++ [k] ∧
      ∀ v : LPage, KTable.table v.proc v.slot ≠ .table h slot → g'.desc v = g.desc v := by
  obtain ⟨d, c, us, s₂, hacquire, hinv₁, hquiet, howner, rfl⟩ :=
    hinv.ksSwapOut_acquired rfl hswap
  obtain ⟨g', hinv', hevicted, hplace, hempty, hothers⟩ := hinv₁.swapOwner_table hk rfl
    (fun x => ⟨False.elim, fun hx => hx.2 hx.1⟩) howner
  refine ⟨g', c, hinv', ?_, hplace, (dvtAcquireCluster_some hacquire).1, hempty, hothers⟩
  have htrans := hquiet.trans hevicted
  simp only [false_or] at htrans
  exact htrans

/-- A table in use that is a page table is one of a process. -/
theorem housed_table {f : Nat} (hinv : KernelInv g noHand noHand s)
    (htype : (s.ksFt f).type = .ksPageTable) (hused : f ∉ s.ksEmpty) :
    ∃ h slot, g.place (.table h slot) = .frame f := by
  obtain ⟨holder, hholds⟩ := hinv.frames.covered (hinv.typed f (.inl htype)) hused
  cases holder with
  | hand n => exact absurd hholds.1 id
  | table t =>
      cases t with
      | master h =>
          rw [(hinv.masters h f hholds).1] at htype
          cases htype
      | table h slot => exact ⟨h, slot, hholds⟩

theorem evictTable_passed {f : Nat} (hinv : KernelInv g noHand noHand s)
    (htype : (s.ksFt f).type = .ksPageTable) (hused : f ∉ s.ksEmpty)
    (hswap : ksSwapOut depth s ⟨f, true, nullCluster⟩ = .ok s') :
    ∃ g', KernelInv g' noHand noHand s' ∧ PassedAll g s g' s' := by
  obtain ⟨h, slot, hf⟩ := hinv.housed_table htype hused
  obtain ⟨g', c, hinv', hevicted, _⟩ := hinv.ksSwapOut_table hf hswap
  refine ⟨g', hinv', hevicted.sound, fun v => (hevicted.pages v).sameRights,
    fun v hv => desc_of_shared (hevicted.pages v) hv,
    fun v p hp => ⟨p, (hevicted.pages v).2.trans hp, fun _ _ => rfl⟩, fun x n => ?_,
    fun x hx => ?_, fun x slot' c' _ hc => ⟨hevicted.stored _ c' hc, fun i => ?_⟩,
    hevicted.objects⟩
  · rw [Layout.segment, hevicted.segs x n, Layout.segment]
  · rwa [Layout.NoMaster, hevicted.place (.master x) (fun heq => by cases heq)] at hx
  · refine (hevicted.pages _).desc_eq fun hr => ?_
    obtain ⟨x, hx⟩ := hinv.resident_frame hr
    cases hc.symm.trans hx

/-- A user frame that is in use is evicted, as dirty as its frame table entry says. -/
theorem evictPage_passed {f : Nat} (hinv : KernelInv g noHand noHand s)
    (hlt : f < s.userspcSize) (hused : f ∉ s.usEmpty)
    (hswap : s.onUser (·.usSwapOut ⟨f, (s.usFt f).getDirty, s.ot f⟩) = .ok s') :
    ∃ g', KernelInv g' noHand noHand s' ∧ PassedAll g s g' s' := by
  obtain ⟨us, hus, hret⟩ := Outcome.bind_ok hswap
  cases hret
  obtain ⟨holder, hholds⟩ := hinv.user.frames.ledger.covered hlt hused
  cases holder with
  | hand n => exact absurd hholds.1 id
  | page v =>
      obtain ⟨hr, rfl⟩ := hholds
      obtain ⟨cn, a, _, huser, hpaged, _⟩ := usSwapOut_inv hinv.user hr rfl rfl
        (fun hnull => (hinv.user.clusters.agree v hr hnull).symm) hus
      obtain ⟨x, hx⟩ := hinv.resident_frame hr
      obtain ⟨hinv', hcarried, hobjects⟩ := hinv.userStep hx huser
        (hpaged.mono fun _ => False.elim)
      refine ⟨_, hinv', .of_carried hinv hcarried hobjects ?_ ?_ ?_ ?_⟩
      · rintro _ rfl
        exact (hpaged.kept _).sameRights
      · rintro _ rfl hshared
        exact desc_of_shared (hpaged.kept _) hshared
      · rintro _ rfl p hp
        exact ⟨p, (hpaged.kept _).2.trans hp, fun _ _ => rfl⟩
      · rintro h slot c _ hc
        refine ⟨hc, fun i heq => ?_⟩
        cases heq
        cases hc.symm.trans hx

end KernelInv

namespace KernelSystem

/-- The page table of an address is on the disk, and the master table stays in memory when it
is fetched. -/
structure TableOut (s : KernelSystem) (h addr : Nat) : Prop where
  master : s.HasMaster h
  out : ∃ e, s.slotEntry h (slotOf addr) = some e ∧ e.status = PageTableL1Entry.statusPagedOut
  stays : ∀ p, s.pcbs h = some p → s.victimFrame ≠ some p.masterTable

/-- `swap_page_table`, which leaves the page table unlocked, or `page_table_lock`. -/
def reload (s : KernelSystem) (h addr : Nat) (lock : Bool) : Except Halt KernelSystem :=
  if lock then do
    let (_, s) ← s.pageTableLock h addr
    .ok s
  else s.swapPageTable h addr

end KernelSystem

/-- A page table that was on the disk is in memory. Nothing else comes in, and what leaves makes
room for it. -/
structure Reloaded (h : Nat) (slot : Fin 64) (c f : Nat) (g : Layout) (s : KernelSystem)
    (g' : Layout) (s' : KernelSystem) : Prop where
  cluster : g.place (.table h slot) = .cluster c
  frame : g'.place (.table h slot) = .frame f
  paged : OnlyPaged g s g' s'
  objects : SameObjects s s'
  room : KernelInv.MadeRoom (· = .table h slot) g s g'
  free : s'.dvt c = true
  others : ∀ v : LPage, ¬ MakesRoom g s (.table v.proc v.slot) → g'.desc v = g.desc v

namespace KernelInv

variable {g : Layout} {s s' : KernelSystem} {h addr : Nat} {lock : Bool}

theorem tableOut_cluster (hinv : KernelInv g noHand noHand s) (hsound : g.Sound)
    (htable : s.TableOut h addr) : ∃ c, g.place (.table h (slotOf addr)) = .cluster c := by
  obtain ⟨m, hm⟩ := hinv.hasMaster_iff.mp htable.master
  obtain ⟨e, he, hstatus⟩ := htable.out
  obtain ⟨e', he', hagree⟩ := hinv.slotEntry_agrees (slotOf addr) (not_noMaster hm)
  cases he.symm.trans he'
  obtain hc | hlost := hagree.pagedOut hstatus
  · exact ⟨_, hc⟩
  · exact absurd hlost (hsound h _ m hm)

/-- Either way the page table is fetched. -/
theorem reload_eq {m c : Nat} (hinv : KernelInv g noHand noHand s)
    (hm : g.place (.master h) = .frame m) (hc : g.place (.table h (slotOf addr)) = .cluster c) :
    s.reload h addr lock = s.fetchPageTable ⟨m, slotCell (slotOf addr)⟩ lock := by
  obtain ⟨p, hp, _, hat⟩ := hinv.pcb_ok hm
  have hagree := hinv.agrees hm (slotOf addr)
  rw [hc] at hagree
  have hindex : p.ptl1Ptr.index (ptl1Slot addr) = ⟨m, slotCell (slotOf addr)⟩ := by
    rw [hat.ptl1Ptr, ← index_slotCell]
    rfl
  cases lock with
  | false =>
      simp only [reload, Bool.false_eq_true, if_false, swapPageTable, hinv.accessPtl1_eq hm,
        Outcome.ok_bind]
  | true =>
      simp only [reload, if_true, pageTableLock, hp, Outcome.ok_bind, hindex, hagree.1]
      cases s.fetchPageTable ⟨m, slotCell (slotOf addr)⟩ true <;> rfl

theorem reload_inv (hinv : KernelInv g noHand noHand s) (hsound : g.Sound)
    (htable : s.TableOut h addr) (hreload : s.reload h addr lock = .ok s') :
    ∃ g' c f, KernelInv g' noHand noHand s' ∧ (∃ m, g'.place (.master h) = .frame m) ∧
      Reloaded h (slotOf addr) c f g s g' s' := by
  obtain ⟨m, hm⟩ := hinv.hasMaster_iff.mp htable.master
  obtain ⟨p, _, hp, hat⟩ := hinv.pcb_ok hm
  obtain ⟨c, hc⟩ := hinv.tableOut_cluster hsound htable
  have hstays : ∀ f s₁, s.ksTakePage = .ok (f, s₁) → ¬ MakesRoom g s (.master h) := by
    rintro f s₁ _ ⟨k, hk, hplace | ⟨x, slot, heq, _⟩⟩
    · cases hm.symm.trans hplace
      exact htable.stays p hp (by rw [hat.masterTable]; exact hk)
    · cases heq
  rw [hinv.reload_eq hm hc] at hreload
  obtain ⟨g', f, hinv', hpaged, hobjects, hm', hf, _, hroom, hfree, hothers⟩ :=
    hinv.fetchPageTable_brought hm hstays hc hreload
  exact ⟨g', c, f, hinv', ⟨m, hm'⟩, hc, hf, hpaged, hobjects, hroom, hfree, hothers⟩

theorem reload_passed (hinv : KernelInv g noHand noHand s) (hsound : g.Sound)
    (htable : s.TableOut h addr) (hreload : s.reload h addr lock = .ok s') :
    ∃ g', KernelInv g' noHand noHand s' ∧
      Passed (fun _ _ => True) (· ≠ .table h (slotOf addr)) g s g' s' := by
  obtain ⟨g', c, f, hinv', _, hreloaded⟩ := hinv.reload_inv hsound htable hreload
  refine ⟨g', hinv', .of_paged hinv hreloaded.paged hreloaded.objects fun x slot c' hout hc' => ?_⟩
  exact hreloaded.room.stored _ hout c' hc'

end KernelInv

/-- What may happen to a state between two calls that make or remove segments. A frame is
evicted as `us_get_victim` and `ks_get_victim` have it evicted. -/
inductive PagingOp where
  | pageFault (h addr : Nat)
  | access (pid addr : Nat) (type : AccessType)
  | store (pid addr : Nat) (value : BitVec 8)
  | evictPage (f : Nat)
  | evictTable (f : Nat)
  | reload (h addr : Nat) (lock : Bool)

namespace PagingOp

/-- `levels` bounds the nesting of faults and accesses. -/
def exec (levels : Nat) (s : KernelSystem) : PagingOp → Except Halt KernelSystem
  | .pageFault h addr => s.pageFault levels h addr
  | .access pid addr type => do
      let (_, s) ← s.access levels pid addr type false
      .ok s
  | .store pid addr value => s.storeThrough levels pid addr value
  | .evictPage f => s.onUser (·.usSwapOut ⟨f, (s.usFt f).getDirty, s.ot f⟩)
  | .evictTable f => ksSwapOut s.stackDepth s ⟨f, true, nullCluster⟩
  | .reload h addr lock => s.reload h addr lock

/-- The master tables that are gone through are in memory and the pages in segments; what is
evicted is in use. -/
def Proceeds (levels : Nat) (s : KernelSystem) : PagingOp → Prop
  | .pageFault h addr => s.FaultsIn levels h addr
  | .access pid addr _ | .store pid addr _ =>
      ∀ h, s.accessPcb pid = .ok h → MastersIn levels s h addr
  | .evictPage f => f < s.userspcSize ∧ f ∉ s.usEmpty
  | .evictTable f => (s.ksFt f).type = .ksPageTable ∧ f ∉ s.ksEmpty
  | .reload h addr _ => s.TableOut h addr

/-- The byte of a private page is not stored to. -/
def Spares (levels : Nat) (s : KernelSystem) (v : LPage) (off : Fin 1024) : PagingOp → Prop
  | .store pid addr _ => ∀ h, s.accessPcb pid = .ok h → s.resolve levels h addr = some v →
      off ≠ offsetOf addr
  | _ => True

/-- A page table is not brought in. -/
def Outside (levels : Nat) (s : KernelSystem) (t : KTable) : PagingOp → Prop
  | .pageFault h addr => s.FaultsOutside t levels h addr
  | .reload h addr _ => t ≠ .table h (slotOf addr)
  | _ => True

variable {levels : Nat} {g : Layout} {s s' : KernelSystem} {op : PagingOp}

theorem passed (hinv : KernelInv g noHand noHand s) (hsound : g.Sound)
    (hproceeds : op.Proceeds levels s) (hexec : op.exec levels s = .ok s') :
    ∃ g', KernelInv g' noHand noHand s' ∧
      Passed (op.Spares levels s) (op.Outside levels s) g s g' s' := by
  cases op with
  | pageFault h addr =>
      obtain ⟨g', hinv', hpassed⟩ := hinv.pageFault_passed hsound hproceeds hexec
      exact ⟨g', hinv', hpassed⟩
  | access pid addr type =>
      obtain ⟨⟨status, s₁⟩, haccess, hret⟩ := Outcome.bind_ok hexec
      cases hret
      obtain ⟨h, hpcb⟩ := access_pcb haccess
      obtain ⟨g', hinv', hpassed, _⟩ :=
        hinv.access_passed hsound (hproceeds h hpcb) hpcb haccess
      exact ⟨g', hinv', hpassed⟩
  | store pid addr value =>
      obtain ⟨g', hinv', hpassed⟩ := hinv.storeThrough_passed hsound hproceeds hexec
      exact ⟨g', hinv', hpassed⟩
  | evictPage f =>
      obtain ⟨g', hinv', hpassed⟩ := hinv.evictPage_passed hproceeds.1 hproceeds.2 hexec
      exact ⟨g', hinv', hpassed⟩
  | evictTable f =>
      obtain ⟨g', hinv', hpassed⟩ := hinv.evictTable_passed hproceeds.1 hproceeds.2 hexec
      exact ⟨g', hinv', hpassed⟩
  | reload h addr lock =>
      obtain ⟨g', hinv', hpassed⟩ := hinv.reload_passed hsound hproceeds hexec
      exact ⟨g', hinv', hpassed⟩

/-- A step of a run that spares some bytes and leaves some page tables outside. -/
structure Step (levels : Nat) (spares : LPage → Fin 1024 → Prop) (outside : KTable → Prop)
    (s : KernelSystem) (op : PagingOp) (s' : KernelSystem) : Prop where
  proceeds : op.Proceeds levels s
  spared : ∀ v off, spares v off → op.Spares levels s v off
  outside : ∀ t, outside t → op.Outside levels s t
  exec : op.exec levels s = .ok s'

theorem passed_of_run {spares : LPage → Fin 1024 → Prop} {outside : KTable → Prop}
    {ops : List PagingOp} (hinv : KernelInv g noHand noHand s) (hsound : g.Sound)
    (hrun : Run (Step levels spares outside) s ops s') :
    ∃ g', KernelInv g' noHand noHand s' ∧ Passed spares outside g s g' s' := by
  refine hrun.invariant (fun s' => ∃ g', KernelInv g' noHand noHand s' ∧
    Passed spares outside g s g' s') ?_ ⟨g, hinv, .quiet g (fun _ => rfl) (.refl s)⟩
  rintro s₁ op s₂ ⟨g₁, hinv₁, hpassed₁⟩ hstep
  obtain ⟨g₂, hinv₂, hpassed₂⟩ := passed hinv₁ (hpassed₁.sound hsound) hstep.proceeds hstep.exec
  exact ⟨g₂, hinv₂, hpassed₁.trans (hpassed₂.mono hstep.spared hstep.outside)⟩

end PagingOp

end VirtualMemory
