import Destiny.AutoCreate
import Destiny.CharList

/-!
# The storage in a list of characters

`SendCharList` clears all but the last of its 126 storage items before it stores the rows it
finds, so what the stack held there before goes to the client, unless a row takes the place.
-/

namespace Destiny

open Text Sql Prog

variable {E : Env} {J : Junk} {c p : Ptr} {s t u : Server} {a : CAccount} {b : Bool} {packet : Bytes}
  {k n : Nat} {rs : List (Row Col)} {rows : List Fetched} {chars : List CCharacter}
  {items : Nat → CItem} {D : Nat → UInt8}

/-! ## The packet -/

/-- The buffer after the header of the list. -/
def sendHeader (a : CAccount) : Nat → UInt8 :=
  stores [addWord 1824 0, addWord 0x010a 4, addWord a.userid 6] fun _ => 0

/-- What is stored after the storage. -/
def lastFields (J : Junk) (a : CAccount) : List Write :=
  [addDWord 1500000000 1780, addStr J a.username.str 1800, addData J [] 1816 7,
    addWord a.clientid 120, addWord a.clientid 122, addWord a.clientid 124, addWord a.clientid 126]

/-- A list that is sent, taken apart. -/
theorem sendCharList_sent {cl : CConnClient} (hcl : s.heap c = some cl)
    (h : sendCharList E J c s = .ok b t) (hsent : .send p packet k ∈ s.since t) :
    ∃ rows chars storageRows items s3 s4 s5 s6 s7 s8,
      s3 = { s with packet := sendHeader cl.playerSession, trace := .listing c :: s.trace } ∧
      selectChars E c s3 = .ok (some rows) s4 ∧ fetchChars E J rows [] s4 = .ok (some chars) s5 ∧
      doSQL E Query.storage [txt cl.playerSession.username.str] s5 = .ok (some storageRows) s6 ∧
      fetchItems 126 .storageIndex storageRows (fun j => if j < 125 then {} else J.storageLast) s6 =
        .ok items s7 ∧
      writeChars E J c 0 chars s7 = .ok true s8 ∧
      packet = (List.range 1823).map
        (stores (storageFields items ++ lastFields J cl.playerSession) s8.packet) ∧
      t.trace = .send p packet k :: s8.trace := by
  have hquiet : ∀ {v : Server}, (sending fun _ => False).rel s v → v ≠ t := by
    rintro v hv rfl
    exact not_sent hv hsent
  obtain ⟨_, s1, h1, h⟩ := of_bind_ok h
  obtain ⟨cl', s1', hcl', h⟩ := of_bind_ok h
  obtain ⟨_, s2, h2, h⟩ := of_bind_ok h
  obtain ⟨_, s3, h3, h⟩ := of_bind_ok h
  obtain ⟨q, s4, h4, h⟩ := of_bind_ok h
  obtain rfl : cl' = cl := by
    cases h1
    exact Option.some.inj ((client_ok hcl').1.symm.trans hcl)
  have hs3 : s3 = { s with
      packet := sendHeader cl'.playerSession, trace := .listing c :: s.trace } := by
    cases h1
    cases h3
    rw [(writes_stores h2).1, (client_ok hcl').2]
    rfl
  have hq3 : (sending fun _ => False).rel s s3 :=
    ⟨[.listing c], by rw [hs3]; rfl, by simp [Event.plain]⟩
  have hq4 := Frame.trans _ hq3 (Keeps.rel_ok (calm_sending.selectChars (E := E) (c := c)) h4)
  rcases q with _ | rows
  · cases h
    exact absurd rfl (hquiet hq4)
  obtain ⟨q, s5, h5, h⟩ := of_bind_ok h
  have hq5 := Frame.trans _ hq4 (Keeps.rel_ok (calm_sending.fetchChars rows []) h5)
  rcases q with _ | chars
  · cases h
    exact absurd rfl (hquiet hq5)
  obtain ⟨q, s6, h6, h⟩ := of_bind_ok h
  have hq6 := Frame.trans _ hq5 (Keeps.rel_ok (calm_sending.doSQL _ _) h6)
  rcases q with _ | storageRows
  · cases h
    exact absurd rfl (hquiet hq6)
  obtain ⟨items, s7, h7, h⟩ := of_bind_ok h
  have hq7 := Frame.trans _ hq6 (Keeps.rel_ok (calm_sending.fetchItems _ _ _ _) h7)
  obtain ⟨q, s8, h8, h⟩ := of_bind_ok h
  have hq8 := Frame.trans _ hq7 (Keeps.rel_ok (keeps_writeChars_sending 0 chars) h8)
  cases q with
  | false =>
    cases h
    exact absurd rfl (hquiet hq8)
  | true =>
  obtain ⟨_, s9, h9, h⟩ := of_bind_ok h
  obtain ⟨_, s10, h10, h⟩ := of_bind_ok h
  obtain ⟨_, s11, h11, h⟩ := of_bind_ok h
  obtain ⟨-, hs11⟩ := sendPacket_ok h11
  cases h
  obtain ⟨hs9, -⟩ := writes_stores h9
  obtain ⟨hs10, -⟩ := writes_stores h10
  refine ⟨rows, chars, storageRows, items, s3, s4, s5, s6, s7, s8, hs3, h4, h5, h6, h7, h8, ?_⟩
  obtain ⟨es, hes, hnone⟩ := hq8
  have hpacket : s10.packet =
      stores (storageFields items ++ lastFields J cl'.playerSession) s8.packet := by
    have hstorage : s9.packet = stores (storageFields items) s8.packet := by rw [hs9]
    have hlast : s10.packet = stores (lastFields J cl'.playerSession) s9.packet := by
      rw [hs10]
      rfl
    rw [hlast, hstorage, stores_append]
  have hlog : s10.trace = s8.trace := by rw [hs10, hs9]
  have htrace : t.trace = (.send c ((List.range 1823).map s10.packet) s10.hash1 :: es) ++ s.trace := by
    rw [hs11]
    exact congrArg _ (hlog.trans hes)
  rw [since_eq htrace] at hsent
  rcases List.mem_cons.mp hsent with heq | hmem
  · refine ⟨by rw [(Event.send.inj heq).2.1, hpacket], ?_⟩
    rw [htrace, ← heq]
    exact congrArg _ hes.symm
  · exact (hnone _ hmem p packet rfl).elim

/-! ## The storage -/

/-- The database answers the query for the storage of an account with these rows. -/
def StorageIs (E : Env) (db : Database) (x : Bytes) (rs : List (Row Col)) : Prop :=
  ∀ n rows, (E.sql.query n db (vsprintf (ascii Query.storage) [txt x])).2 = some rows →
    rows = rs.map (printed itemRowCols)

/-- The rows a text compares an owner with. -/
def storageCond (x : Bytes) : Cond Col Bytes := [[.eq (.col .owner) (.str x)]]

theorem parse_storage {x : Bytes} (hx : clean x) :
    parseText schema (vsprintf (ascii Query.storage) [txt x]) =
      some (.select itemRowCols .storage (storageCond x)) := by
  have hst : compile schema (Text.items (ascii Query.storage)) = some (.select itemRowCols .storage
      [[.eq (.col .owner) (.str [.inr (.s, 0)])]]) := by rfl
  rw [parseText_of_clean hst (by simpa [cleanArg] using hx)]
  simp [Stmt.map, Atom.map, Operand.map, storageCond, fill, Arg.print]

/-- Under a name without quotes these are the rows of its owner. -/
theorem storageIs_clean {x : Bytes} (hx : clean x) (db : Database) :
    StorageIs E db x ((db.rows .storage).filter (holds (storageCond x))) := by
  intro n rows h
  rcases E.sql.parsed n db _ _ (parse_storage hx) with hq | hq <;> rw [hq] at h <;> cases h
  rfl

/-- The entries of the storage are the rows, as far as they have room, and empty in the slots
without one. -/
def StorageShown (rs : List (Row Col)) (packet : Bytes) : Prop := ∀ n : Nat, n < 126 →
  (∀ r ∈ rs, r .slotnum = .int n → itemIn packet (8 * n + 756) = CItem.shown r) ∧
  ((∀ r ∈ rs, r .slotnum ≠ .int n) → itemIn packet (8 * n + 756) = {})

theorem storageFields_eq (items : Nat → CItem) : storageFields items = itemBlock items 756 126 := by
  unfold storageFields itemBlock
  refine List.flatMap_congr fun i _ => ?_
  simp only [itemStores, Int.add_assoc, Int.reduceAdd]

/-- The entries, as the array holds them. -/
theorem itemIn_storage (hn : n < 126) :
    itemIn ((List.range 1823).map (stores (storageFields items ++ lastFields J a) D)) (8 * n + 756) =
      (items n).wire := by
  rw [itemIn_range (by omega), stores_append]
  have hclear : ∀ w ∈ lastFields J a, w.clear (8 * n + 756) 8 ∧ 0 ≤ w.off := by
    unfold lastFields
    simp only [List.forall_mem_cons]
    refine ⟨?_, ?_, ?_, ?_, ?_, ?_, ?_, fun _ h => absurd h List.not_mem_nil⟩ <;>
      simp only [Write.clear, addDWord, addWord, addStr, addData, leBytes_length, List.length_map,
        List.length_range] <;> omega
  rw [itemAt_clear hclear, storageFields_eq]
  exact itemAt_itemBlock hn (by push_cast; omega) (by omega)

/-- Where no slot is taken twice, a row is the last of its slot. -/
theorem getLast_slot {r : Row Col} {m : Cell} (hone : rs.Pairwise fun r r' => r .slotnum ≠ r' .slotnum)
    (hr : r ∈ rs) (hm : r .slotnum = m) :
    (rs.filter fun r => r .slotnum = m).getLast? = some r := by
  have hmem : r ∈ rs.filter fun r => r .slotnum = m :=
    List.mem_filter.mpr ⟨hr, decide_eq_true hm⟩
  cases hlast : (rs.filter fun r => r .slotnum = m).getLast? with
  | none =>
    rw [List.getLast?_eq_none_iff.mp hlast] at hmem
    cases hmem
  | some r' =>
    obtain ⟨hr', hm'⟩ := List.mem_filter.mp (List.mem_of_getLast? hlast)
    have : Std.Symm fun r r' : Row Col => r .slotnum ≠ r' .slotnum := ⟨fun _ _ h => h.symm⟩
    by_contra hne
    exact hone.forall hr hr' (fun he => hne (congrArg some he.symm))
      (hm.trans (of_decide_eq_true hm').symm)

/-- The items that are stored, by the slots of their rows. -/
theorem stored_slot (htyped : ∀ r ∈ rs, ∀ k, (r k).HasKind k.kind)
    (hin : ∀ r ∈ rs, InArray 126 r) (hn : n < 126) (items : Nat → CItem) :
    stored rs items n = (((rs.filter fun r => r .slotnum = .int n).getLast?).map CItem.ofRow).getD
      (items n) := by
  rw [stored_apply]
  congr 3
  exact List.filter_congr fun r hr => decide_eq_decide.mpr
    (slotOf_eq_iff (htyped r hr .slotnum) (by omega) ((hin r hr).1 .slotnum (by decide)))

/-- The storage that the packet shows is the storage that the database holds, just when it holds
an item in the last slot or the stack happens to be clear there. -/
theorem storageShown_iff (ha : s.session c = some a) (hrs : ∀ r ∈ rs, r ∈ s.db.rows .storage)
    (hdb : StorageIs E s.db a.username.str rs)
    (hone : rs.Pairwise fun r r' => r .slotnum ≠ r' .slotnum)
    (h : sendCharList E J c s = .ok b t) (hsent : .send p packet k ∈ s.since t) :
    StorageShown rs packet ↔ (∃ r ∈ rs, r .slotnum = .int 125) ∨ J.storageLast.wire = {} := by
  obtain ⟨cl, hcl, rfl⟩ := Option.map_eq_some_iff.mp ha
  obtain ⟨rows, chars, storageRows, items, s3, s4, s5, s6, s7, s8, hs3, h4, h5, h6, h7, -, hpacket, -⟩ :=
    sendCharList_sent hcl h hsent
  have hO := ofDb_sameDb.ordinary c
  have hdb5 : s5.db = s.db := by
    have hselect : s4.db = s3.db := Keeps.rel_ok (F := sameDb) (keeps_selectChars hO.toBasic hO.derefs) h4
    have hfetch : s5.db = s4.db := Keeps.rel_ok (F := sameDb)
      (keeps_fetchChars hO.toBasic (ofDb_sameDb.lists c).chars rows []) h5
    rw [hfetch, hselect, hs3]
  have hrows : storageRows = rs.map (printed itemRowCols) := by
    refine hdb s5.sqlCalls storageRows ?_
    rw [← hdb5]
    exact (doSQL_ok h6).1.symm
  have htyped : ∀ r ∈ rs, ∀ k, (r k).HasKind k.kind := fun r hr => s.db.typed _ r (hrs r hr)
  rw [hrows] at h7
  obtain ⟨hitems, -, hin⟩ := fetchItems_printed_ok htyped h7
  have hentry : ∀ n : Nat, n < 126 → itemIn packet (8 * n + 756) =
      ((((rs.filter fun r => r .slotnum = .int n).getLast?).map CItem.ofRow).getD
        (if n < 125 then {} else J.storageLast)).wire := fun n hn => by
    rw [hpacket, itemIn_storage hn, hitems, stored_slot htyped hin hn]
  have htaken : ∀ n : Nat, n < 126 → ∀ r ∈ rs, r .slotnum = .int n →
      itemIn packet (8 * n + 756) = CItem.shown r := fun n hn r hr hslot => by
    rw [hentry n hn, getLast_slot hone hr hslot]
    exact wire_ofRow r
  have hempty : ∀ n : Nat, n < 126 → (∀ r ∈ rs, r .slotnum ≠ .int n) →
      itemIn packet (8 * n + 756) = (if n < 125 then {} else J.storageLast : CItem).wire :=
    fun n hn hno => by
      have hnil : (rs.filter fun r => r .slotnum = .int n) = [] :=
        List.filter_eq_nil_iff.mpr fun r hr => by simpa using hno r hr
      rw [hentry n hn, hnil]
      rfl
  constructor
  · intro hshown
    by_cases hlast : ∃ r ∈ rs, r .slotnum = .int 125
    · exact .inl hlast
    · have hno : ∀ r ∈ rs, r .slotnum ≠ .int (125 : Nat) := fun r hr hslot => hlast ⟨r, hr, hslot⟩
      have hitem := (hshown 125 (by decide)).2 hno
      rw [hempty 125 (by decide) hno] at hitem
      exact .inr hitem
  · intro hcond n hn
    refine ⟨htaken n hn, fun hno => ?_⟩
    rw [hempty n hn hno]
    by_cases hn' : n < 125
    · rw [if_pos hn']
      rfl
    · obtain rfl : n = 125 := by omega
      rw [if_neg hn']
      refine hcond.resolve_left ?_
      rintro ⟨r, hr, hslot⟩
      exact hno r hr hslot

/-- The packet of a player's list, from a server with these tables. -/
def sentList (J : Junk) (db : Database) : Option Bytes :=
  ((listing db).since (fin (sendCharList Env.plain J 0 (listing db)))).findSome? fun e =>
    e.plain.map (·.2)

/-- An account with an item in the last slot of its storage: `owner` is a number, and a name that
begins with none counts as 0. -/
def stocked : Database :=
  (oneAccount 0).add .storage [.owner, .slotnum, .itemid] [.int 0, .int 125, .int 7]

/-- A run that returns `true` and sends the first client a packet. -/
def sends (x : M Bool) (s : Server) : Bool :=
  match x s with
  | .ok b t => b && (s.since t).any fun
    | .send 0 _ _ => true
    | _ => false
  | .error _ _ => false

theorem exists_sent {x : M Bool} (h : sends x s = true) :
    ∃ t packet k, x s = .ok true t ∧ .send 0 packet k ∈ s.since t := by
  unfold sends at h
  split at h
  · rename_i b t hx
    obtain ⟨rfl, hsent⟩ := Bool.and_eq_true_iff.mp h
    obtain ⟨e, he, hto⟩ := List.any_eq_true.mp hsent
    split at hto
    · rename_i packet k
      exact ⟨t, packet, k, hx, he⟩
    · cases hto
  · cases h

theorem storageShown_iff_stocked : ∃ t packet k,
    sendCharList Env.plain {} 0 (listing stocked) = .ok true t ∧
    .send 0 packet k ∈ (listing stocked).since t ∧
    StorageShown ((listing stocked).db.rows .storage) packet := by
  have hstate : ((listing stocked).session 0).map (·.username.str) = some (ascii "bob") ∧
      (∀ r ∈ (listing stocked).db.rows .storage, holds (storageCond (ascii "bob")) r = true) ∧
      ((listing stocked).db.rows .storage).Pairwise (fun r r' => r .slotnum ≠ r' .slotnum) ∧
      (∃ r ∈ (listing stocked).db.rows .storage, r .slotnum = .int 125) ∧
      sends (sendCharList Env.plain {} 0) (listing stocked) = true := by decide +kernel
  obtain ⟨huser, hall, hone, hlast, hrun⟩ := hstate
  obtain ⟨a, ha, huser⟩ := Option.map_eq_some_iff.mp huser
  obtain ⟨t, packet, k, hsend, hsent⟩ := exists_sent hrun
  have hdb := storageIs_clean (E := Env.plain) (x := ascii "bob") (by decide) (listing stocked).db
  rw [List.filter_eq_self.mpr hall, ← huser] at hdb
  exact ⟨t, packet, k, hsend, hsent,
    (storageShown_iff ha (fun r hr => hr) hdb hone hsend hsent).mpr (.inl hlast)⟩

/-- An account without storage is shown what the stack holds. -/
theorem sentList_storageLast : (oneAccount 0).rows .storage = [] ∧
    ∃ b, sentList { storageLast := { itemid := 7 } } (oneAccount 0) = some b ∧ ¬ StorageShown [] b := by
  have hrows : (oneAccount 0).rows .storage = [] ∧
      (sentList { storageLast := { itemid := 7 } } (oneAccount 0)).map (itemIn · (8 * 125 + 756)) =
        some { itemid := 7 } := by decide +kernel
  obtain ⟨hnone, hitem⟩ := hrows
  obtain ⟨b, hb, hitem⟩ := Option.map_eq_some_iff.mp hitem
  refine ⟨hnone, b, hb, fun hshown => ?_⟩
  have hclear := (hshown 125 (by decide)).2 fun _ h => absurd h List.not_mem_nil
  rw [hitem] at hclear
  exact absurd hclear (by decide)

end Destiny
