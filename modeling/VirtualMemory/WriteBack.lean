import VirtualMemory.Passing

/-!
# Which stores are written back

A store goes through the address that an access has granted. It survives the eviction of its
page where the frame is known to be dirty, and the two ways to evict a page ask two different
bits: the one in the frame table, and the one in the descriptor that owns the frame. `access`
sets both of them for a WRITE, on a private page as on the page of the dummy that a mapping
leads to, and leaves them alone for a READ_WRITE.
-/

namespace VirtualMemory

open Function UserSpace KernelSystem PageTableL2Entry

namespace KernelSystem

/-- The frame that an address is translated to is dirty by both bits. -/
def StoreCaught (s : KernelSystem) (depth h addr : Nat) : Prop :=
  ∃ f a, getPa depth s h addr = .ok (some (f, addr % pageSize)) ∧
    (s.usFt f).owner = some a ∧ (s.mem a).getDirty = true ∧ (s.usFt f).getDirty = true

/-- The master tables that the walk to an address goes through are in memory. -/
def MastersIn : Nat → KernelSystem → Nat → Nat → Prop
  | 0, _, _, _ => True
  | depth + 1, s, h, addr => s.HasMaster h ∧ ∀ e, s.descriptor (pageOf h addr) = some e →
      e.getShared = true → ∀ d, s.ssegVec.atIndex e.ssegInd.toNat = .ok d →
        MastersIn depth s d (ssegAddr e addr)

end KernelSystem

/-- The page that an address leads to, with all the tables on the way in memory. -/
inductive Leads (g : Layout) (s : KernelSystem) : Nat → Nat → Nat → LPage → Prop
  | page {depth h addr f : Nat} (master : ∃ m, g.place (.master h) = .frame m)
      (table : g.place (.table h (slotOf addr)) = .frame f)
      (resident : (g.desc (pageOf h addr)).Resident)
      (inseg : (g.desc (pageOf h addr)).getInseg = true) :
      Leads g s (depth + 1) h addr (pageOf h addr)
  | shared {depth h addr f d : Nat} {v : LPage} (master : ∃ m, g.place (.master h) = .frame m)
      (table : g.place (.table h (slotOf addr)) = .frame f)
      (shared : (g.desc (pageOf h addr)).getShared = true)
      (segment : s.ssegVec.atIndex (g.desc (pageOf h addr)).ssegInd.toNat = .ok d)
      (rest : Leads g s depth d (ssegAddr (g.desc (pageOf h addr)) addr) v) :
      Leads g s (depth + 1) h addr v

theorem ssegAddr_mod (e : PageTableL2Entry) (addr : Nat) :
    ssegAddr e addr % pageSize = addr % pageSize := by
  rw [ssegAddr, Nat.mul_add_mod_self_right, Nat.mod_mod]

namespace Leads

variable {g g' : Layout} {s s' : KernelSystem} {depth h addr : Nat} {v : LPage}

theorem resident (hleads : Leads g s depth h addr v) : (g.desc v).Resident := by
  induction hleads with
  | page _ _ hr _ => exact hr
  | shared _ _ _ _ _ ih => exact ih

/-- `get_pa` goes where the address leads. -/
theorem getPa_eq (hinv : KernelInv g noHand noHand s) (hleads : Leads g s depth h addr v) :
    getPa depth s h addr = .ok (some ((g.desc v).block, addr % pageSize)) := by
  induction hleads with
  | page hm _ hr hinseg =>
      obtain ⟨m, hm⟩ := hm
      exact hinv.getPa_resident hm hr hinseg _
  | shared hm hf hshared hsegment _ ih =>
      obtain ⟨m, hm⟩ := hm
      simp only [getPa, hinv.accessPtl1_eq hm, deref, Outcome.ok_bind, hinv.accessPtl2_eq hm hf,
        derefPtl2, hinv.mem_pageOf hf, hshared, if_true, hsegment, ih, ssegAddr_mod]

/-- A dirty bit does not lead anywhere else. -/
theorem congr (hplace : g'.place = g.place) (hsegs : s'.ssegVec = s.ssegVec)
    (hdesc : ∀ u, g'.desc u = g.desc u ∨ g'.desc u = (g.desc u).setDirty true)
    (hleads : Leads g s depth h addr v) : Leads g' s' depth h addr v := by
  have hflags : ∀ u, (g'.desc u).getShared = (g.desc u).getShared ∧
      (g'.desc u).getValid = (g.desc u).getValid ∧ (g'.desc u).getInseg = (g.desc u).getInseg ∧
      (g'.desc u).block = (g.desc u).block ∧ (g'.desc u).ssegInd = (g.desc u).ssegInd := by
    intro u
    obtain hu | hu := hdesc u <;> rw [hu]
    · exact ⟨rfl, rfl, rfl, rfl, rfl⟩
    · refine ⟨?_, ?_, ?_, ?_, rfl⟩ <;> simp
  induction hleads with
  | @page depth h addr f hm hf hr hinseg =>
      obtain ⟨hshared, hvalid, hinseg', _, _⟩ := hflags (pageOf h addr)
      exact .page (by rwa [hplace]) (by rwa [hplace])
        ⟨hshared.trans hr.1, hvalid.trans hr.2⟩ (hinseg'.trans hinseg)
  | @shared depth h addr f d v hm hf hshared hsegment _ ih =>
      obtain ⟨hshared', _, _, hblock, hind⟩ := hflags (pageOf h addr)
      refine .shared (by rwa [hplace]) (by rwa [hplace]) (hshared'.trans hshared)
        (by rwa [hind, hsegs]) ?_
      rwa [ssegAddr, hblock]

end Leads

theorem mastersIn_lock {s : KernelSystem} (m : Nat) : ∀ {depth h addr : Nat},
    MastersIn depth s h addr → MastersIn depth (s.ksLockPage m) h addr
  | 0, _, _, _ => trivial
  | _ + 1, _, _, hmasters => ⟨hmasters.1, fun e he hshared d hd =>
      mastersIn_lock m (hmasters.2 e he hshared d hd)⟩

theorem access_pcb {s : KernelSystem} {depth pid addr : Nat} {type : AccessType}
    {ignoreAccess : Bool} {r : Status × KernelSystem}
    (haccess : access depth s pid addr type ignoreAccess = .ok r) :
    ∃ h, s.accessPcb pid = .ok h := by
  cases depth with
  | zero => cases haccess
  | succ depth =>
      obtain ⟨h, hpcb, _⟩ := Outcome.bind_ok haccess
      exact ⟨h, hpcb⟩

/-- A page after an access through it that was granted, with the frame table. -/
structure Marked (g : Layout) (s : KernelSystem) (v : LPage) (type : AccessType) (g' : Layout)
    (s' : KernelSystem) : Prop where
  inv : KernelInv g' noHand noHand s'
  place : g'.place = g.place
  others : ∀ u, u ≠ v → g'.desc u = g.desc u
  desc : g'.desc v = if type = .write then (g.desc v).setDirty true else g.desc v
  ssegVec : s'.ssegVec = s.ssegVec
  usFt : s'.usFt = if type = .write then
    update s.usFt (g.desc v).block ((s.usFt (g.desc v).block).setDirty true) else s.usFt

namespace KernelInv

variable {g : Layout} {s s' : KernelSystem} {h addr m f depth pid : Nat} {type : AccessType}
  {ignoreAccess : Bool}

/-- A private page that is granted is resident, and a WRITE marks it. -/
theorem accessEntry_granted
    {onShared : KernelSystem → Nat → Nat → Except Halt (Status × KernelSystem)}
    (hinv : KernelInv g noHand noHand s) (hf : g.place (.table h (slotOf addr)) = .frame f)
    (hshared : (g.desc (pageOf h addr)).getShared = false)
    (hentry : s.accessEntry onShared addr type ignoreAccess ⟨f, cellOf addr⟩ = .ok (.ok, s')) :
    (g.desc (pageOf h addr)).Resident ∧ (g.desc (pageOf h addr)).getInseg = true ∧
      s' = if type = .write then s.withUser (s.markDirty ⟨f, cellOf addr⟩) else s := by
  unfold accessEntry at hentry
  simp only [hinv.mem_pageOf hf] at hentry
  split at hentry
  · cases hentry
  · rw [if_neg (by simp [hshared])] at hentry
    unfold accessPhys at hentry
    by_cases hinseg : (g.desc (pageOf h addr)).getInseg = true
    · by_cases hvalid : (g.desc (pageOf h addr)).getValid = true
      · simp only [hinseg, hvalid, Bool.not_true, Bool.false_eq_true, if_false, Except.ok.injEq,
          Prod.mk.injEq, true_and] at hentry
        exact ⟨⟨hshared, hvalid⟩, hinseg, hentry.symm⟩
      · simp [hinseg, hvalid] at hentry
    · simp [hinseg] at hentry

/-- An access to a private page that is not granted changes nothing. -/
theorem accessEntry_refused {status : Status}
    {onShared : KernelSystem → Nat → Nat → Except Halt (Status × KernelSystem)}
    (hinv : KernelInv g noHand noHand s) (hf : g.place (.table h (slotOf addr)) = .frame f)
    (hshared : (g.desc (pageOf h addr)).getShared = false) (hnot : status ≠ .ok)
    (hentry : s.accessEntry onShared addr type ignoreAccess ⟨f, cellOf addr⟩ =
      .ok (status, s')) : s' = s := by
  unfold accessEntry at hentry
  simp only [hinv.mem_pageOf hf] at hentry
  split at hentry
  · cases hentry
    rfl
  · rw [if_neg (by simp [hshared])] at hentry
    split at hentry
    · cases hentry
      rfl
    · cases hentry
      exact absurd rfl hnot

/-- The mark on a page in memory. -/
theorem marked (hinv : KernelInv g noHand noHand s)
    (hf : g.place (.table h (slotOf addr)) = .frame f) (hr : (g.desc (pageOf h addr)).Resident)
    (hs' : s' = if type = .write then s.withUser (s.markDirty ⟨f, cellOf addr⟩) else s) :
    ∃ g', Marked g s (pageOf h addr) type g' s' ∧ PassedAll g s g' s' := by
  by_cases hwrite : type = .write
  · rw [if_pos hwrite] at hs'
    subst hs'
    obtain ⟨huser, hbut, hcontent⟩ := markDirty_inv (v := pageOf h addr) hinv.user
      (Layout.addr_of_frame hf _) hr
    obtain ⟨hinv', hcarried, hobjects⟩ := hinv.userStep hf huser hbut
    refine ⟨_, ⟨hinv', rfl, fun u hu => ?_, ?_, rfl, ?_⟩,
      .of_carried hinv hcarried hobjects ?_ ?_ ?_ ?_⟩
    · rw [Layout.withDesc_desc, PageView.put_desc_of_ne _ hu]
      rfl
    · rw [if_pos hwrite, Layout.withDesc_desc]
      exact PageView.put_desc_self _ _ _ _
    · rw [if_pos hwrite]
      simp only [KernelSystem.withUser, markDirty, hinv.mem_pageOf hf, setPte]
    · rintro _ rfl
      rw [Layout.withDesc_desc, PageView.put_desc_self]
      exact sameRights_set (.refl _) (by decide) (by decide)
    · rintro _ rfl hshared
      rw [hr.1] at hshared
      cases hshared
    · rintro _ rfl p hp
      rw [Layout.withDesc_desc, PageView.put_desc_self]
      exact ⟨p, hcontent.trans hp, fun _ _ => rfl⟩
    · intro x slot c _ hc
      refine ⟨hc, fun i heq => ?_⟩
      cases heq
      cases hc.symm.trans hf
  · rw [if_neg hwrite] at hs'
    subst hs'
    exact ⟨g, ⟨hinv, rfl, fun _ _ => rfl, by rw [if_neg hwrite], rfl, by rw [if_neg hwrite]⟩,
      .quiet g (fun _ => rfl) (.refl _)⟩

/-- An access moves nothing, and one that is granted marks the page that the address leads to. -/
theorem access_passed {status : Status} (hinv : KernelInv g noHand noHand s) (hsound : g.Sound)
    (hmasters : MastersIn depth s h addr) (hpcb : s.accessPcb pid = .ok h)
    (haccess : access depth s pid addr type ignoreAccess = .ok (status, s')) :
    ∃ g', KernelInv g' noHand noHand s' ∧ PassedAll g s g' s' ∧
      (status = .ok → ∃ v, Leads g s depth h addr v ∧ Marked g s v type g' s') := by
  induction depth generalizing g s pid h addr ignoreAccess s' with
  | zero => cases haccess
  | succ depth ih =>
      obtain ⟨m, hm⟩ := hinv.hasMaster_iff.mp hmasters.1
      obtain ⟨_, heq, hwork, hcases⟩ := hinv.access_ok hsound hm hpcb haccess
      cases heq
      have hlock : PassedAll g s g (s.ksLockPage m) :=
        .quiet g (fun _ => rfl) (hinv.ksLockPage_inv m).2.2
      have hstop : ∀ {st : Status}, st ≠ .ok → ∃ g', KernelInv g' noHand noHand
          (s.ksLockPage m) ∧ PassedAll g (s.ksLockPage m) g' (s.ksLockPage m) ∧
          (st = .ok → ∃ v, Leads g s (depth + 1) h addr v ∧
            Marked g (s.ksLockPage m) v type g' (s.ksLockPage m)) := fun hnot =>
        ⟨g, hwork.inv, .quiet g (fun _ => rfl) (.refl _), fun hok => absurd hok hnot⟩
      obtain ⟨s₁, ⟨g', hinv', hpassed, hgranted⟩, rfl⟩ :
          ∃ s₁, (∃ g', KernelInv g' noHand noHand s₁ ∧
          PassedAll g (s.ksLockPage m) g' s₁ ∧ (status = .ok →
            ∃ v, Leads g s (depth + 1) h addr v ∧ Marked g (s.ksLockPage m) v type g' s₁)) ∧
          s' = s₁.pageUnlock m := by
        obtain ⟨_, hnot, rfl⟩ | ⟨f, s₁, hf, hentry, rfl⟩ := hcases
        · exact ⟨_, hstop hnot, rfl⟩
        refine ⟨s₁, ?_, rfl⟩
        cases hshared : (g.desc (pageOf h addr)).getShared with
        | false =>
            by_cases hok : status = .ok
            · subst status
              obtain ⟨hr, hinseg, hs₁⟩ := hwork.inv.accessEntry_granted hf hshared hentry
              obtain ⟨g₁, hmarked, hpassed⟩ := hwork.inv.marked hf hr hs₁
              exact ⟨g₁, hmarked.inv, hpassed, fun _ => ⟨_, .page ⟨m, hm⟩ hf hr hinseg, hmarked⟩⟩
            · rw [hwork.inv.accessEntry_refused hf hshared hok hentry]
              exact hstop hok
        | true =>
            -- the access goes on to the dummy of the segment
            unfold accessEntry at hentry
            simp only [hwork.inv.mem_pageOf hf, hshared, if_true] at hentry
            split at hentry
            · cases hentry
              exact hstop nofun
            obtain ⟨d, hd⟩ := access_pcb hentry
            have hsegment : s.ssegVec.atIndex (g.desc (pageOf h addr)).ssegInd.toNat = .ok d := by
              rw [accessPcb, if_neg (by omega), Nat.add_sub_cancel_left] at hd
              exact hd
            have hdescriptor := hinv.descriptor_at hsound hm addr (by simp [hf])
            obtain ⟨g₁, hinv₁, hpassed, hgranted⟩ := ih hwork.inv hsound
              (mastersIn_lock m (hmasters.2 _ hdescriptor hshared d hsegment)) hd hentry
            refine ⟨g₁, hinv₁, hpassed, fun hok => ?_⟩
            obtain ⟨v, hleads, hmarked⟩ := hgranted hok
            have hsegs : s.ssegVec = (s.ksLockPage m).ssegVec := rfl
            exact ⟨v, .shared ⟨m, hm⟩ hf hshared hsegment
              (hleads.congr rfl hsegs fun _ => .inl rfl), hmarked⟩
      obtain ⟨hinv'', hunlock⟩ := hinv'.unlock_passed m
      refine ⟨g', hinv'', hlock.trans (hpassed.trans hunlock), fun hok => ?_⟩
      obtain ⟨v, hleads, hmarked⟩ := hgranted hok
      refine ⟨v, hleads, hinv'', hmarked.place, hmarked.others, hmarked.desc,
        hunlock.objects.ssegVec.trans hmarked.ssegVec, ?_⟩
      rw [pageUnlock_user]
      exact hmarked.usFt

end KernelInv

namespace Marked

variable {g g' : Layout} {s s' : KernelSystem} {v : LPage} {type : AccessType}

theorem desc_or (hmarked : Marked g s v type g' s') (u : LPage) :
    g'.desc u = g.desc u ∨ g'.desc u = (g.desc u).setDirty true := by
  by_cases hu : u = v
  · subst u
    rw [hmarked.desc]
    split
    · exact .inr rfl
    · exact .inl rfl
  · exact .inl (hmarked.others u hu)

theorem block_eq (hmarked : Marked g s v type g' s') : (g'.desc v).block = (g.desc v).block := by
  obtain hv | hv := hmarked.desc_or v <;> rw [hv]
  exact block_set _ _ _

end Marked

/-- The two bits of the page that an address leads to. -/
theorem Leads.storeCaught_iff {g : Layout} {s : KernelSystem} {depth h addr : Nat} {v : LPage}
    (hinv : KernelInv g noHand noHand s) (hleads : Leads g s depth h addr v) :
    s.StoreCaught depth h addr ↔
      (g.desc v).getDirty = true ∧ (s.usFt (g.desc v).block).getDirty = true := by
  obtain ⟨_, a, ha, howner⟩ := hinv.user.frames.owner v hleads.resident
  have hmem : s.mem a = g.desc v := hinv.user.frames.link v a ha
  constructor
  · rintro ⟨f, b, hpa, hb, hdesc, hft⟩
    rw [hleads.getPa_eq hinv] at hpa
    cases hpa
    cases hb.symm.trans howner
    exact ⟨hmem ▸ hdesc, hft⟩
  · rintro ⟨hdesc, hft⟩
    exact ⟨_, a, hleads.getPa_eq hinv, howner, hmem ▸ hdesc, hft⟩

/-- A store into frame `f`, the page of descriptor `a`, outlives an eviction by either path:
the state stays consistent, the page's cluster holds what was stored, and a fault on the page
brings it back. -/
def KernelSystem.KeepsStores (s : KernelSystem) (f : Nat) (a : KAddr) : Prop :=
  ∀ offset value us,
    ((s.storeByte f offset value).usSwapOut ⟨f, (s.usFt f).getDirty, s.ot f⟩ = .ok us ∨
      (s.storeByte f offset value).usEvictPage f (s.mem a).getDirty = .ok us) →
    (s.withUser us).Consistent ∧ (us.mem a).PagedOut ∧
      us.disk (us.mem a).block = (s.userspc f).store offset value ∧
      ∀ us', us.faultPage a = .ok us' →
        us'.userspc (us'.mem a).block = (s.userspc f).store offset value

section Store

variable {V D E : Type} [DecidableEq V] [DecidableEq D] {w : PageView V D} {ext : E → Nat → Prop}
  {s us : UserSpace D} {v : V} {a : D} {offset : Fin 1024} {value : BitVec 8}

/-- A page that is evicted as dirty takes the last store with it. -/
theorem evicted_after_store (hinv : UserInv w noHand ext s)
    (hr : (w.desc v).Resident) (hdirty : (w.desc v).getDirty = true)
    (hswap : (s.storeByte (w.desc v).block offset value).usSwapOut
      ⟨(w.desc v).block, true, s.ot (w.desc v).block⟩ = .ok us) :
    ∃ w', UserInv w' noHand ext us ∧ PagedBut ext (· = v) w s w' us ∧ (w'.desc v).PagedOut ∧
      us.content (w'.desc v) = some ((s.userspc (w.desc v).block).store offset value) := by
  obtain ⟨hstore, hbut, hcontent⟩ := storeByte_inv hinv hr hdirty offset value
  obtain ⟨cn, b, hb, huser, hpaged, _⟩ :=
    usSwapOut_inv hstore hr rfl rfl (fun _ => hdirty.symm) hswap
  refine ⟨_, huser, hbut.trans (hpaged.mono fun _ => False.elim), ?_, ?_⟩
  · rw [PageView.put_desc_self]
    exact pagedOut_swappedOut hr (hinv.clusters.shape v) cn
  · rw [← hcontent]
    exact (hpaged.kept v).2

/-- A fault brings a page back with what its cluster holds. -/
theorem faultPage_back {us' : UserSpace D} {page : Page} (hinv : UserInv w noHand ext us)
    (ha : w.addr v = some a) (hout : (w.desc v).PagedOut)
    (hcontent : us.content (w.desc v) = some page) (hfault : us.faultPage a = .ok us') :
    us'.userspc (us'.mem a).block = page := by
  obtain ⟨w', hinv', hbut, hr, _, hback⟩ := faultPage_inv hinv ha hout.1 hout.2.1 hfault
  have hpage := hback page hcontent
  rw [content_resident hr] at hpage
  rw [hinv'.frames.link v a (by rw [hbut.addr, ha])]
  exact Option.some.inj hpage

end Store

namespace KernelInv

variable {g : Layout} {s : KernelSystem} {v : LPage} {a : KAddr}

theorem keepsStores (hinv : KernelInv g noHand noHand s) (hsound : g.Sound)
    (hr : (g.desc v).Resident) (hdirty : (g.desc v).getDirty = true)
    (hft : (s.usFt (g.desc v).block).getDirty = true) (ha : g.addr v = some a) :
    s.KeepsStores (g.desc v).block a := by
  intro offset value us hevict
  have hmem : s.mem a = g.desc v := hinv.user.frames.link v a ha
  -- both paths are told that the page is dirty
  have hswap : (s.storeByte (g.desc v).block offset value).usSwapOut
      ⟨(g.desc v).block, true, s.ot (g.desc v).block⟩ = .ok us := by
    obtain hswap | hswap := hevict
    · rwa [hft] at hswap
    · rw [hmem, hdirty] at hswap
      exact hswap
  obtain ⟨w', huser, hbut, hout, hcontent⟩ := evicted_after_store hinv.user hr hdirty hswap
  obtain ⟨f, hf⟩ : ∃ f, g.place (.table v.proc v.slot) = .frame f := hinv.resident_frame hr
  obtain ⟨hinv', _, _⟩ := hinv.userStep hf huser hbut
  have haddr : w'.addr v = some a := by
    rw [hbut.addr]
    exact ha
  have hlink : us.mem a = w'.desc v := huser.frames.link v a haddr
  refine ⟨⟨_, hinv', hsound⟩, hlink ▸ hout, ?_, fun us' hfault =>
    faultPage_back huser haddr hout hcontent hfault⟩
  rw [content_pagedOut hout] at hcontent
  rw [hlink]
  exact Option.some.inj hcontent

end KernelInv

/-- A granted access leaves both dirty bits set just when it is a WRITE or they were set
before, on private and on shared pages; and where they are set, what is stored through the
address outlives the page's eviction, whichever path takes it. -/
theorem write_caught {s s' : KernelSystem} {depth pid h addr : Nat} {type : AccessType}
    (hcons : s.Consistent) (hpcb : s.accessPcb pid = .ok h) (hmasters : MastersIn depth s h addr)
    (haccess : access depth s pid addr type false = .ok (.ok, s')) :
    (s'.StoreCaught depth h addr ↔ type = .write ∨ s.StoreCaught depth h addr) ∧
      ∀ f a, s'.StoreCaught depth h addr →
        getPa depth s' h addr = .ok (some (f, addr % pageSize)) → (s'.usFt f).owner = some a →
        s'.KeepsStores f a := by
  obtain ⟨g, hinv, hsound⟩ := hcons
  obtain ⟨g', _, _, hgranted⟩ := hinv.access_passed hsound hmasters hpcb haccess
  obtain ⟨v, hleads, hmarked⟩ := hgranted rfl
  have hleads' : Leads g' s' depth h addr v :=
    hleads.congr hmarked.place hmarked.ssegVec hmarked.desc_or
  have hsound' : g'.Sound := fun x slot m hm => by
    rw [hmarked.place] at hm ⊢
    exact hsound x slot m hm
  rw [hleads.storeCaught_iff hinv, hleads'.storeCaught_iff hmarked.inv, hmarked.block_eq]
  refine ⟨?_, fun f a hcaught hpa howner => ?_⟩
  · rw [hmarked.desc, hmarked.usFt]
    by_cases hwrite : type = .write
    · simp [hwrite]
    · simp [hwrite]
  · rw [hleads'.getPa_eq hmarked.inv] at hpa
    cases hpa
    obtain ⟨_, b, hb, howner'⟩ := hmarked.inv.user.frames.owner v hleads'.resident
    cases howner.symm.trans howner'
    exact hmarked.inv.keepsStores hsound' hleads'.resident hcaught.1
      (by rw [hmarked.block_eq]; exact hcaught.2) hb

/-- Two pages take turns in one frame; the first is in it again, clean. -/
def turnsInFrame : List KernelOp :=
  [.createProcess, .createSegment 0 0 2 .readWrite, .pageFault 0 0, .pageFault 0 1024,
    .pageFault 0 0]

/-- A test that process 0 has the address 0 on a page of its own. -/
def KernelSystem.ownsFirst (s : KernelSystem) : Bool :=
  decide ((s.accessPcb 0).toOption = some 0) && decide (s.HasMaster 0) &&
    (s.descriptor (pageOf 0 0)).any fun e => !e.getShared

theorem KernelSystem.mastersIn_of_test {s : KernelSystem} (htest : s.ownsFirst = true) :
    s.accessPcb 0 = .ok 0 ∧ MastersIn 1 s 0 0 := by
  simp only [ownsFirst, Bool.and_eq_true, decide_eq_true_eq, Option.any_eq_true,
    Bool.not_eq_true'] at htest
  obtain ⟨⟨hpcb, hmaster⟩, e, he, hshared⟩ := htest
  refine ⟨Outcome.toOption_ok hpcb, hmaster, fun e' he' hshared' => ?_⟩
  cases he.symm.trans he'
  rw [hshared] at hshared'
  cases hshared'

/-- A page that was clean, and is written to. -/
theorem write_caught_turns : ∃ s s' : KernelSystem, ¬ s.StoreCaught 1 0 0 ∧
    access 1 s 0 0 .write false = .ok (.ok, s') ∧ s'.StoreCaught 1 0 0 := by
  have hruns : (KernelOp.runSmall KernelOp.settling 1 3 4 [0, 0] turnsInFrame).any (fun r =>
      decide (r.1.userspcSize ≤ 65536) && decide (r.1.krnlspcSize ≤ 65536) && r.2.ownsFirst &&
        Outcome.holds (getPa 1 r.2 0 0) (fun pa => pa.any fun x => !(r.2.usFt x.1).getDirty) &&
        Outcome.holds (access 1 r.2 0 0 .write false) fun r' => decide (r'.1 = .ok)) = true := by
    decide +kernel
  obtain ⟨⟨start, s⟩, hr, hcheck⟩ := (Option.any_eq_true _ _).mp hruns
  simp only [Bool.and_eq_true, decide_eq_true_eq] at hcheck
  obtain ⟨⟨⟨⟨huser, hkrnl⟩, htest⟩, hclean⟩, haccess⟩ := hcheck
  obtain ⟨hpcb, hmasters⟩ := s.mastersIn_of_test htest
  obtain ⟨⟨status, s'⟩, haccess, hok⟩ := Outcome.of_holds haccess
  obtain rfl : status = .ok := of_decide_eq_true hok
  refine ⟨s, s', ?_, haccess, (write_caught (KernelOp.consistent_of_settling hr huser hkrnl) hpcb
    hmasters haccess).1.mpr (.inl rfl)⟩
  rintro ⟨f, a, hpa, _, _, hdirty⟩
  obtain ⟨pa, hpa', hclean⟩ := Outcome.of_holds hclean
  cases hpa.symm.trans hpa'
  simp [hdirty] at hclean

/-- A READ_WRITE access to the page is granted, and the page stays clean. -/
theorem not_write_caught : ¬ ∀ (s s' : KernelSystem) (depth pid h addr : Nat) (type : AccessType),
    s.Consistent → s.accessPcb pid = .ok h → MastersIn depth s h addr →
    type = .write ∨ type = .readWrite → access depth s pid addr type false = .ok (.ok, s') →
    s'.StoreCaught depth h addr := by
  intro hall
  have hruns : (KernelOp.runSmall KernelOp.settling 1 3 4 [0, 0] turnsInFrame).any (fun r =>
      decide (r.1.userspcSize ≤ 65536) && decide (r.1.krnlspcSize ≤ 65536) && r.2.ownsFirst &&
        Outcome.holds (access 1 r.2 0 0 .readWrite false) fun r' => decide (r'.1 = .ok) &&
          Outcome.holds (getPa 1 r'.2 0 0) fun pa =>
            pa.any fun x => !(r'.2.usFt x.1).getDirty) = true := by
    decide +kernel
  obtain ⟨⟨start, s⟩, hr, hcheck⟩ := (Option.any_eq_true _ _).mp hruns
  simp only [Bool.and_eq_true, decide_eq_true_eq] at hcheck
  obtain ⟨⟨⟨huser, hkrnl⟩, htest⟩, haccess⟩ := hcheck
  obtain ⟨hpcb, hmasters⟩ := s.mastersIn_of_test htest
  obtain ⟨⟨status, s'⟩, haccess, hrest⟩ := Outcome.of_holds haccess
  simp only [Bool.and_eq_true, decide_eq_true_eq] at hrest
  obtain ⟨rfl, hclean⟩ := hrest
  obtain ⟨f, a, hpa, _, _, hdirty⟩ := hall s s' 1 0 0 0 .readWrite
    (KernelOp.consistent_of_settling hr huser hkrnl) hpcb hmasters (.inr rfl) haccess
  obtain ⟨pa, hpa', hclean⟩ := Outcome.of_holds hclean
  cases hpa.symm.trans hpa'
  simp [hdirty] at hclean

end VirtualMemory
