import Destiny.Mutual

/-!
# In and out of the world

`inGame` is set by `SendToWorld` and by nothing else, and nothing takes it back. It says who
is in the world as long as nobody leaves it, nobody in it has a world packet refused by the
database, and no world packet names an empty slot.
-/

namespace Destiny

open Text Sql Prog

/-- The rows of the slot that a world packet names; `none` when the database refuses. -/
def Server.slotRows (s : Server) (E : Env) (c : Ptr) (P : Packet) : Option (List Fetched) :=
  (E.sql.query s.sqlCalls s.db (vsprintf (ascii Query.charAt)
    [txt (((s.session c).map (·.username.str)).getD []),
      .int (ofLE ((P.mem.drop 12).take 1))])).2

/-- The clients whose last packet that enters or leaves the world was an entry, of a character
that was found. -/
def entered (E : Env) (s : Server) (g : Ptr → Bool) : Step → Ptr → Bool
  | .addUser _ => setAt g s.nextPtr false
  | .packet c P _ =>
    if c ∉ s.clientList then g
    else if P.opcode = 0x0213 then setAt g c (((s.slotRows E c P).map (! ·.isEmpty)).getD false)
    else if P.opcode = 0x0215 then setAt g c false
    else g
  | .disconnectClient _ | .visiblityList .. => g

/-- The flag says who entered. -/
def Flagged (h : Server × (Ptr → Bool)) : Prop := ∀ c ∈ h.1.clientList, h.1.inWorld c = h.2 c

/-- A look around that returns lists only clients that entered. -/
def Offered (E : Env) (h : Server × (Ptr → Bool)) : Step → Prop
  | .visiblityList c J => c ∈ h.1.clientList → thrown (exec E (.visiblityList c J) h.1) = none →
    ∀ p ∈ (fin (exec E (.visiblityList c J) h.1)).visible c, h.2 p = true
  | .addUser _ | .disconnectClient _ | .packet .. => True

/-- Nobody in the world leaves it or has an entry refused, and nobody enters an empty slot. -/
def FlagKept (E : Env) (s : Server) : Step → Prop
  | .packet c P _ => c ∈ s.clientList →
    (P.opcode = 0x0215 → s.inWorld c = false) ∧
    (P.opcode = 0x0213 → s.slotRows E c P ≠ some [] ∧
      (s.slotRows E c P = none → s.inWorld c = false))
  | .addUser _ | .disconnectClient _ | .visiblityList .. => True

instance (h : Server × (Ptr → Bool)) : Decidable (Flagged h) :=
  inferInstanceAs (Decidable (∀ c ∈ h.1.clientList, _))

instance (E : Env) (h : Server × (Ptr → Bool)) : (i : Step) → Decidable (Offered E h i)
  | .visiblityList .. => inferInstanceAs (Decidable (_ → _ → ∀ p ∈ _, _))
  | .addUser _ | .disconnectClient _ | .packet .. => .isTrue trivial

instance (E : Env) (s : Server) : (i : Step) → Decidable (FlagKept E s i)
  | .packet .. => inferInstanceAs (Decidable (_ → (_ → _) ∧ (_ → ¬ _ = _ ∧ (_ → _))))
  | .addUser _ | .disconnectClient _ | .visiblityList .. => .isTrue trivial

variable {E : Env} {J : Junk} {c p : Ptr} {s t : Server} {P : Packet} {g : Ptr → Bool}

/-! ## Entering -/

theorem inWorld_setSession (hc : (s.heap c).isSome) :
    (s.update c fun cl => { cl with playerSession := { cl.playerSession with inGame := true } }).inWorld
      c = true := by
  obtain ⟨cl, hcl⟩ := Option.isSome_iff_exists.mp hc
  unfold Server.inWorld
  rw [session_update, if_pos rfl, hcl]
  rfl

/-- An entry that the database answers sets the flag, also when the slot is empty; one that it
refuses leaves it. -/
theorem sendToWorld_inWorld {b : Bool} (h : sendToWorld E J c P s = .ok b t) :
    t.inWorld c = (s.inWorld c || (s.slotRows E c P).isSome) := by
  obtain ⟨_, s1, h1, h⟩ := of_bind_ok h
  cases h1
  obtain ⟨cl, s2, h2, h⟩ := of_bind_ok h
  have hcl := (client_ok h2).1
  obtain rfl := (client_ok h2).2.symm
  obtain ⟨slot, s3, h3, h⟩ := of_bind_ok h
  obtain ⟨rfl, rfl⟩ := rdInt_ok h3
  obtain ⟨r, s4, h4, h⟩ := of_bind_ok h
  obtain ⟨hr, hs4⟩ := doSQL_ok h4
  have hcl : s.heap c = some cl := hcl
  have hrows : r = s.slotRows E c P := by
    rw [hr, Server.slotRows, Server.session, hcl]
    rfl
  rw [← hrows]
  cases r with
  | none =>
    cases h
    rw [hs4]
    exact (Bool.or_false _).symm
  | some rows =>
    obtain ⟨_, s5, h5, h⟩ := of_bind_ok h
    obtain ⟨_, s6, h6, h⟩ := of_bind_ok h
    obtain ⟨_, s7, h7, h⟩ := of_bind_ok h
    obtain ⟨this, s8, h8, h⟩ := of_bind_ok h
    obtain ⟨_, s9, h9, h⟩ := of_bind_ok h
    obtain ⟨_, s10, h10, h⟩ := of_bind_ok h
    obtain ⟨⟨cl', hcl'⟩, rfl⟩ := sendPacket_ok (u := ()) h10
    obtain ⟨_, s11, h11, h⟩ := of_bind_ok h
    have hin : s11.inWorld c = true := by
      cases h11
      exact inWorld_setSession (by show (s9.heap c).isSome = true; rw [hcl']; rfl)
    obtain ⟨_, s12, h12, h⟩ := of_bind_ok h
    have hin12 : s12.inWorld c = true := by
      cases h12
      unfold Server.inWorld
      rw [session_update, if_pos rfl]
      exact hin
    obtain ⟨_, s13, h13, h⟩ := of_bind_ok h
    cases h13
    obtain ⟨_, s14, h14, h⟩ := of_bind_ok h
    obtain ⟨D, rfl⟩ := writes_ok h14
    obtain ⟨_, s15, h15, h⟩ := of_bind_ok h
    obtain ⟨-, rfl⟩ := sendPacket_ok (u := ()) h15
    cases h
    rw [Option.isSome_some, Bool.or_true]
    exact hin12

/-! ## Steps -/

/-- What a packet does to the flags. -/
theorem inWorld_step_packet (hc : c ∈ s.clientList) (h : exec E (.packet c P J) s = .ok () t) (p : Ptr) :
    t.inWorld p = (s.inWorld p ||
      decide (p = c ∧ P.opcode = 0x0213) && (s.slotRows E c P).isSome) := by
  have hfin : fin (exec E (.packet c P J) s) = t := by rw [h]; rfl
  by_cases hp : p = c
  swap
  · have hheap := heap_of_others (others_packet (E := E) (J := J) (c := c) (s := s) (P := P)) hp
    rw [hfin] at hheap
    rw [Server.inWorld, Server.session, hheap]
    simp [hp, Server.inWorld, Server.session]
  subst hp
  by_cases ho : P.opcode = 0x0213
  · obtain ⟨l, b, hd⟩ := packet_ok hc h
    rw [ho] at hd
    have hworld := sendToWorld_inWorld (J := J) (c := p) (P := P) (E := E) hd
    have hquiet := (quiet_received s p l).session
    have hin : (s.received p l).inWorld p = s.inWorld p := by
      unfold Server.inWorld
      rw [hquiet]
    have hrows : (s.received p l).slotRows E p P = s.slotRows E p P := by
      unfold Server.slotRows
      rw [hquiet]
      rfl
    rw [hworld, hin, hrows]
    simp [ho]
  · have hview := congrFun (inGame_packet (E := E) (J := J) (c := p) (s := s) ho) p
    rw [hfin] at hview
    have hin : (t.session p).map CAccount.inGame = (s.session p).map CAccount.inGame := hview
    have hw : t.inWorld p = s.inWorld p := by
      unfold Server.inWorld
      rw [hin]
    simp [hw, ho]

/-- A packet leaves the flags right just when it is no exit and no failed entry of a client
that has its flag set, and no entry of an empty slot. -/
theorem flagged_packet (hf : Flagged (s, g)) (h : exec E (.packet c P J) s = .ok () t) :
    Flagged (t, entered E s g (.packet c P J)) ↔ FlagKept E s (.packet c P J) := by
  by_cases hc : c ∈ s.clientList
  swap
  · rw [exec, connected_apply, if_neg hc] at h
    cases h
    have hg : entered E s g (.packet c P J) = g := if_pos hc
    rw [hg]
    exact iff_of_true hf fun hmem => absurd hmem hc
  have hlist : t.clientList = s.clientList := by
    have hshape := (callOf_packet (E := E) (c := c) (s := s) J P).rel.1
    rw [h] at hshape
    exact congrArg (·.2.1) hshape
  have hstep := inWorld_step_packet hc h
  have hg : entered E s g (.packet c P J) =
      if P.opcode = 0x0213 then setAt g c (((s.slotRows E c P).map (! ·.isEmpty)).getD false)
      else if P.opcode = 0x0215 then setAt g c false else g := if_neg (not_not.mpr hc)
  -- only the client's own flag and entry can change
  have hothers : ∀ p, p ≠ c → entered E s g (.packet c P J) p = g p := fun p hp => by
    rw [hg]
    split
    · exact if_neg hp
    · split
      · exact if_neg hp
      · rfl
  have hiff : Flagged (t, entered E s g (.packet c P J)) ↔
      t.inWorld c = entered E s g (.packet c P J) c := by
    refine ⟨fun hall => hall c (by rw [hlist]; exact hc), fun hown p hp => ?_⟩
    by_cases hpc : p = c
    · rw [hpc]
      exact hown
    · rw [hlist] at hp
      show t.inWorld p = entered E s g (.packet c P J) p
      rw [hothers p hpc, hstep p, hf p hp]
      simp [hpc]
  rw [hiff, hstep c, hg]
  have hflag : s.inWorld c = g c := hf c hc
  have hkept : FlagKept E s (.packet c P J) ↔ (P.opcode = 0x0215 → s.inWorld c = false) ∧
      (P.opcode = 0x0213 → s.slotRows E c P ≠ some [] ∧
        (s.slotRows E c P = none → s.inWorld c = false)) := imp_iff_right hc
  rw [hkept]
  by_cases ho : P.opcode = 0x0213
  · have h215 : P.opcode ≠ 0x0215 := by rw [ho]; decide
    simp only [ho, if_true, and_self, decide_true, Bool.true_and, setAt]
    rcases s.slotRows E c P with _ | _ | ⟨row, rows⟩ <;> simp
  by_cases h215 : P.opcode = 0x0215
  · simp [h215, setAt]
  · simp [ho, h215, hflag]

theorem flagged_step (hs : s.Sound) (hf : Flagged (s, g)) {i : Step} (h : exec E i s = .ok () t) :
    Flagged (t, entered E s g i) ↔ FlagKept E s i := by
  have hfin : fin (exec E i s) = t := by rw [h]; rfl
  cases i with
  | packet c P J => exact flagged_packet hf h
  | addUser J =>
    refine iff_of_true (fun p hp => ?_) trivial
    subst hfin
    show Server.inWorld _ p = setAt g s.nextPtr false p
    rw [Server.inWorld, Server.session, addUser_heap]
    unfold setAt
    split
    · rfl
    · next hne =>
      refine hf p ?_
      rcases List.mem_append.mp hp with hp | hp
      · exact hp
      · exact absurd (List.mem_singleton.mp hp) hne
  | disconnectClient c =>
    rw [exec_disconnectClient hs] at h
    refine iff_of_true (fun p hp => ?_) trivial
    split at h
    · cases h
      have hmem : p ≠ c ∧ p ∈ s.clientList := hs.nodup.mem_erase_iff.mp hp
      show Server.inWorld (s.delete c) p = g p
      refine Eq.trans ?_ (hf p hmem.2)
      rw [Server.inWorld, Server.session, Server.delete]
      dsimp only
      rw [if_neg hmem.1]
      rfl
    · cases h
      exact hf p hp
  | visiblityList c J =>
    refine iff_of_true (fun p hp => ?_) trivial
    show t.inWorld p = g p
    by_cases hc : c ∈ s.clientList
    · have hp : p ∈ s.clientList := look_list hc h ▸ hp
      refine Eq.trans ?_ (hf p hp)
      exact inWorld_of_session (look_session hc h p)
    · rw [exec, connected_apply, if_neg hc] at h
      cases h
      exact hf p hp

/-- Right flags make a look around list only clients that entered. -/
theorem offered_of_flagged (hs : s.Sound) (hf : Flagged (s, g)) (i : Step) : Offered E (s, g) i := by
  cases i with
  | visiblityList c J =>
    intro hc hret p hp
    have hok := ok_of_thrown hret
    rw [look_visible hc hok hs, Server.chars, List.mem_filter] at hp
    by_cases hcp : c = p
    · have hself : s.shows c p = false := by
        rw [hcp, Server.shows]
        split <;> simp
      rw [hself] at hp
      cases hp.2
    · rw [shows_eq ((hs.live c).mpr hc) hcp, Bool.and_eq_true, Bool.and_eq_true] at hp
      exact (hf p hp.1).symm.trans hp.2.1.1
  | addUser J => trivial
  | disconnectClient c => trivial
  | packet c P J => trivial

/-- **The flag says who is in the world after every step, and looks around list nobody else**,
exactly when no step leaves the world, enters an empty slot, or has the entry of a client in
the world refused. -/
theorem flagged_iff {is : List Step} (hs : s.Fresh) (hr : run (exec E) is s = .ok () t) :
    (Always (ghost (exec E) (entered E)) Flagged (s, fun _ => false) is ∧
      Along (ghost (exec E) (entered E)) (Offered E) (s, fun _ => false) is) ↔
        Along (exec E) (FlagKept E) s is := by
  have hflag0 : Flagged (s, fun _ => false) := fun c hc => by
    have hmem : c ∈ s.clientList := hc
    rw [hs.clientList] at hmem
    cases hmem
  obtain ⟨g', hghost⟩ := run_ghost (entered E) hr fun _ => false
  have hsound : ∀ (h : Server × (Ptr → Bool)) i, h.1.Sound →
      (fin (ghost (exec E) (entered E) i h)).1.Sound := fun h i hs => by
    have hstep := hs.step (E := E) i
    unfold ghost
    cases e : exec E i h.1 with
    | ok _ u => rw [e] at hstep; exact hstep
    | error _ u => rw [e] at hstep; exact hstep
  have hexact : Always (ghost (exec E) (entered E)) Flagged (s, fun _ => false) is ↔
      Along (exec E) (FlagKept E) s is := by
    rw [← along_ghost (entered E) fun _ => false]
    refine always_iff_along_of_ok hsound (fun h i h' hs hf hok => ?_) hs.sound hflag0 hghost
    obtain ⟨hok, hg⟩ := ghost_ok hok
    have hiff := flagged_step hs hf hok
    rw [← hg] at hiff
    exact hiff
  refine ⟨fun h => hexact.mp h.1, fun h => ⟨hexact.mpr h, ?_⟩⟩
  have hkept : Along (ghost (exec E) (entered E)) (fun h => FlagKept E h.1) (s, fun _ => false) is :=
    (along_ghost _ _).mpr h
  refine hkept.imp_ok (I := fun h => h.1.Sound ∧ Flagged h) (fun h i h' hi hc hok => ?_)
    (fun h i hi _ => offered_of_flagged hi.1 hi.2 i) ⟨hs.sound, hflag0⟩
  obtain ⟨hok, hg⟩ := ghost_ok hok
  have hstep := hi.1.step (E := E) i
  rw [hok] at hstep
  refine ⟨hstep, ?_⟩
  have hflag := (flagged_step hi.1 hi.2 hok).mpr hc
  rw [← hg] at hflag
  exact hflag

/-- The second of two players goes back to the characters, and the first looks around. -/
def comesBack : List Step := twoPlayers ++ [.packet 1 (frame 0x0215 []) {}, .visiblityList 0 {}]

theorem flagged_iff_twoPlayers :
    Always (ghost (exec Env.plain) (entered Env.plain)) Flagged
        (Server.start oneHero, fun _ => false) (twoPlayers ++ [.visiblityList 0 {}]) ∧
      Along (ghost (exec Env.plain) (entered Env.plain)) (Offered Env.plain)
        (Server.start oneHero, fun _ => false) (twoPlayers ++ [.visiblityList 0 {}]) := by
  have h : thrown (run (exec Env.plain) (twoPlayers ++ [.visiblityList 0 {}])
      (Server.start oneHero)) = none ∧
    Along (exec Env.plain) (FlagKept Env.plain) (Server.start oneHero)
      (twoPlayers ++ [.visiblityList 0 {}]) := by decide +kernel
  exact (flagged_iff (Server.start_fresh oneHero) (ok_of_thrown h.1)).mpr h.2

/-- Who is back at the characters keeps the flag, and is listed. -/
theorem comesBack_listed :
    thrown (run (exec Env.plain) comesBack (Server.start oneHero)) = none ∧
      (fin (run (exec Env.plain) comesBack (Server.start oneHero))).visible 0 = [1] ∧
      ¬ Always (ghost (exec Env.plain) (entered Env.plain)) Flagged
          (Server.start oneHero, fun _ => false) comesBack ∧
      ¬ Along (ghost (exec Env.plain) (entered Env.plain)) (Offered Env.plain)
          (Server.start oneHero, fun _ => false) comesBack := by
  decide +kernel

end Destiny
