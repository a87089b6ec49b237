import Destiny.Selection

/-!
# Buying from a shop

`ShopItemBuy` takes the price and tells the client of an item in slot 2, and never looks at the
player's items. So a purchase goes as it should just when it is refused, but for buying nothing
into a slot 2 that is empty.
-/

namespace Destiny

open Text Sql Prog

/-- The item that a purchase names. -/
def Packet.bought (P : Packet) : CItem := itemIn P.mem 12

/-- The purchase is refused: the gold does not do, and nothing is taken. -/
structure RefusesBuy (cl cl' : CConnClient) : Prop where
  poor : cl.playerInfo.gold < 66000
  gold : cl'.playerInfo.gold = cl.playerInfo.gold
  items : cl'.items = cl.items

/-- The price is taken, the item is put into a slot that was empty, and the client is told of the
gold and of the slot. -/
structure Buys (c : Ptr) (P : Packet) (s t : Server) (cl cl' : CConnClient) : Prop where
  gold : cl'.playerInfo.gold = cl.playerInfo.gold - 66000
  nonneg : 0 ≤ cl'.playerInfo.gold
  items : ∃ n < 78, cl.items n = {} ∧ cl'.items = setAt cl.items n P.bought ∧
    ∃ price gold item, s.since t =
        [.send c item s.hash1, .send c gold s.hash1, .send c price s.hash1] ∧
      word gold 4 = 0x03af ∧ intIn gold 12 4 = u32 cl'.playerInfo.gold ∧
      word item 4 = 0x0182 ∧ intIn item 14 1 = n

/-- A purchase goes as it should. -/
def BuysRight (J : Junk) (c : Ptr) (P : Packet) (s : Server) (cl : CConnClient) : Prop :=
  ∃ t cl', shopItemBuy J c P s = .ok true t ∧ t.heap c = some cl' ∧
    (RefusesBuy cl cl' ∨ Buys c P s t cl cl')

variable {J : Junk} {c : Ptr} {P : Packet} {s t : Server} {cl : CConnClient}

theorem shopItemBuy_poor (hcl : s.heap c = some cl) (hgold : cl.playerInfo.gold < 66000) :
    ∃ t, shopItemBuy J c P s = .ok true t ∧ t.heap = s.heap := by
  have htext : vsprintf (cstr (ascii "You need more gold")) [] = ascii "You need more gold" := by
    decide +kernel
  have hmsg := sendServerMsg_apply (J := J) hcl htext (by decide)
  exact ⟨_, (bind_ok (client_of_some hcl)).trans ((congrFun (if_pos hgold) s).trans (bind_ok hmsg)), rfl⟩

/-- The stores of the three packets of a purchase. -/
def priceFields (b : Bytes) : List Write := [addBytes b, addWord 30000 6, addDWord 66000 20]

def goldFields (clientid : Nat) (gold : Int) : List Write :=
  [addWord 16 0, addWord 0x03af 4, addWord clientid 6, addDWord gold 12]

def itemFields (clientid itemid : Nat) (b : Bytes) : List Write :=
  [addWord 24 0, addWord 0x0182 4, addWord clientid 6, addByte 1 12, addByte 2 14,
    addWord itemid 16] ++ addByteRun 18 (b.map fun x => (x.toNat : Int))

/-- The client after a purchase. -/
def CConnClient.paid (cl : CConnClient) : CConnClient :=
  { cl with playerInfo := { cl.playerInfo with gold := cl.playerInfo.gold - 66000 } }

theorem priceFields_inBounds {b : Bytes} (hb : b.length = 24) :
    ∀ w ∈ priceFields b, w.inBounds = true := by
  simp [priceFields, Write.inBounds, addBytes, addWord, addDWord, hb]

theorem goldFields_inBounds (clientid : Nat) (gold : Int) :
    ∀ w ∈ goldFields clientid gold, w.inBounds = true := by
  simp [goldFields, Write.inBounds, addWord, addDWord]

theorem itemFields_inBounds {clientid itemid : Nat} {b : Bytes} (hb : b.length = 6) :
    ∀ w ∈ itemFields clientid itemid b, w.inBounds = true := by
  rw [itemFields, List.forall_mem_append]
  refine ⟨by simp [Write.inBounds, addWord, addByte], addByteRun_inBounds ?_⟩
  rw [List.length_map, hb]
  decide

/-- What is sent of a buffer that holds some stores. -/
def sentPacket (ws : List Write) (n : Nat) : Bytes := (List.range n).map (stores ws fun _ => 0)

theorem shopItemBuy_rich (hcl : s.heap c = some cl) (hgold : ¬ cl.playerInfo.gold < 66000)
    (hP : 24 ≤ P.size) : ∃ t, shopItemBuy J c P s = .ok true t ∧ t.heap c = some cl.paid ∧
      s.since t =
        [.send c (sentPacket (itemFields cl.playerSession.clientid (ofLE ((P.mem.drop 12).take 2))
            ((P.mem.drop 14).take 6)) 24) s.hash1,
          .send c (sentPacket (goldFields cl.playerSession.clientid (cl.playerInfo.gold - 66000)) 16)
            s.hash1,
          .send c (sentPacket (priceFields ((P.mem.drop 0).take 24)) 24) s.hash1] := by
  have hmem : 24 ≤ P.mem.length := by
    rw [Packet.mem, List.length_append]
    exact hP.trans (Nat.le_add_right _ _)
  let ws1 := priceFields ((P.mem.drop 0).take 24)
  let ws2 := goldFields cl.playerSession.clientid (cl.playerInfo.gold - 66000)
  let ws3 := itemFields cl.playerSession.clientid (ofLE ((P.mem.drop 12).take 2)) ((P.mem.drop 14).take 6)
  let s2 : Server := { s with packet := fun _ => 0, reads := s.reads ++ List.range' 0 24 }
  let s3 : Server := ({ s2 with packet := stores ws1 s2.packet } : Server).sent c 24
  let s4 : Server := s3.update c fun x =>
    { x with playerInfo := { x.playerInfo with gold := cl.playerInfo.gold - 66000 } }
  let s5 : Server := { s4 with packet := fun _ => 0 }
  let s6 : Server := ({ s5 with packet := stores ws2 s5.packet } : Server).sent c 16
  let s7 : Server := { s6 with reads := s6.reads ++ List.range' 12 2 }
  let s8 : Server := { s7 with packet := fun _ => 0 }
  let s9 : Server := { s8 with reads := s8.reads ++ List.range' 14 6 }
  let s10 : Server := ({ s9 with packet := stores ws3 s9.packet } : Server).sent c 24
  have hread : rd P 0 24 { s with packet := fun _ => 0 } = .ok ((P.mem.drop 0).take 24) s2 :=
    rd_apply (by omega) _
  have hpay : modifyClient c (fun x =>
      { x with playerInfo := { x.playerInfo with gold := cl.playerInfo.gold - 66000 } }) s3 =
        .ok () s4 := rfl
  have hheap : s4.heap c = some cl.paid := by
    change (if c = c then (s.heap c).map _ else s.heap c) = _
    rw [if_pos rfl, hcl]
    rfl
  have hid : rdInt P 12 2 s6 = .ok (ofLE ((P.mem.drop 12).take 2)) s7 := rdInt_apply (by omega) _
  have hitem : rd P 14 6 s8 = .ok ((P.mem.drop 14).take 6) s9 := rd_apply (by omega) _
  have h1 : ∀ w ∈ ws1, w.inBounds = true := priceFields_inBounds (by simp; omega)
  have h2 : ∀ w ∈ ws2, w.inBounds = true := goldFields_inBounds _ _
  have h3 : ∀ w ∈ ws3, w.inBounds = true := itemFields_inBounds (by simp; omega)
  refine ⟨s10, ?_, hheap, ?_⟩
  · refine (bind_ok (client_of_some hcl)).trans ((congrFun (if_neg hgold) s).trans ?_)
    refine (bind_ok (show packetFree s = .ok () { s with packet := fun _ => 0 } from rfl)).trans ?_
    refine (bind_ok hread).trans ((composed_apply (s := s2) hcl h1).trans ?_)
    refine (bind_ok hpay).trans ((bind_ok (show packetFree s4 = .ok () s5 from rfl)).trans ?_)
    refine (composed_apply (s := s5) hheap h2).trans ((bind_ok hid).trans ?_)
    refine (bind_ok (show packetFree s7 = .ok () s8 from rfl)).trans ((bind_ok hitem).trans ?_)
    exact composed_apply (s := s9) hheap h3
  · exact since_eq (t := s10) (s := s) (show s10.trace = [_, _, _] ++ s.trace from rfl)

/-! ## What the packets say -/

theorem word_sentPacket {ws : List Write} {n i : Nat} (hi : i + 2 ≤ n) :
    word (sentPacket ws n) i = intAt (stores ws fun _ => 0) i 2 := intIn_range hi

theorem readGold (clientid : Nat) (gold : Int) :
    word (sentPacket (goldFields clientid gold) 16) 4 = 0x03af ∧
      intIn (sentPacket (goldFields clientid gold) 16) 12 4 = u32 gold := by
  rw [word_sentPacket (by decide), sentPacket, intIn_range (by decide)]
  unfold goldFields
  simp (disch := omega) only [stores_cons, stores_nil, intAt_addWord_ne, intAt_addDWord_ne,
    intAt_addWord, intAt_addDWord]
  exact ⟨by decide, trivial⟩

theorem readItem (clientid itemid : Nat) (b : Bytes) :
    word (sentPacket (itemFields clientid itemid b) 24) 4 = 0x0182 ∧
      intIn (sentPacket (itemFields clientid itemid b) 24) 14 1 = 2 := by
  rw [word_sentPacket (by decide), sentPacket, intIn_range (by decide)]
  unfold itemFields
  simp (disch := omega) only [stores_append, intAt_addByteRun_ne, stores_cons, stores_nil,
    intAt_addByte_ne, intAt_addWord_ne, intAt_addByte, intAt_addWord]
  exact ⟨by decide, by decide⟩

theorem setAt_self {α : Type} (a : Nat → α) (i : Nat) : setAt a i (a i) = a := by
  funext j
  unfold setAt
  split
  · next h => rw [h]
  · rfl

/-- A purchase that is not refused changes no item, so it goes as it should only by chance. -/
theorem buysRight_rich (hcl : s.heap c = some cl) (hgold : ¬ cl.playerInfo.gold < 66000)
    (hP : 24 ≤ P.size) : BuysRight J c P s cl ↔ P.bought = {} ∧ cl.items 2 = {} := by
  obtain ⟨t, hrun, hheap, hsince⟩ := shopItemBuy_rich (J := J) hcl hgold hP
  obtain ⟨hid, hslot⟩ := readItem cl.playerSession.clientid (ofLE ((P.mem.drop 12).take 2))
    ((P.mem.drop 14).take 6)
  have hread := readGold cl.playerSession.clientid (cl.playerInfo.gold - 66000)
  constructor
  · rintro ⟨t', cl', hrun', hheap', hright⟩
    rw [hrun] at hrun'
    cases hrun'
    obtain rfl : cl.paid = cl' := Option.some.inj (hheap.symm.trans hheap')
    rcases hright with hrefuse | hbuy
    · exact absurd hrefuse.poor hgold
    · obtain ⟨n, -, hempty, hitems, price, gold, item, hsends, -, -, -, hn⟩ := hbuy.items
      rw [hsince] at hsends
      obtain ⟨-, hitem, -⟩ := Event.send.inj (List.cons.inj hsends).1
      rw [← hitem, hslot] at hn
      subst hn
      have htwo : cl.items 2 = P.bought := by
        have hat : cl.items 2 = setAt cl.items 2 P.bought 2 := congrFun hitems 2
        rwa [setAt, if_pos rfl] at hat
      exact ⟨htwo.symm.trans hempty, hempty⟩
  · rintro ⟨hbought, hempty⟩
    refine ⟨t, cl.paid, hrun, hheap, .inr ⟨rfl, ?_, 2, by decide, hempty, ?_, _, _, _, hsince, hread.1,
      hread.2, hid, hslot⟩⟩
    · change 0 ≤ cl.playerInfo.gold - 66000
      omega
    · rw [hbought, ← hempty, setAt_self]
      rfl

/-- A purchase goes as it should just when it is refused, or when the item is none and the slot
that the client is told of is empty. -/
theorem shopItemBuy_iff (hcl : s.heap c = some cl) (hP : 24 ≤ P.size) : BuysRight J c P s cl ↔
    cl.playerInfo.gold < 66000 ∨ P.bought = {} ∧ cl.items 2 = {} := by
  by_cases hgold : cl.playerInfo.gold < 66000
  · refine iff_of_true ?_ (.inl hgold)
    obtain ⟨t, hrun, hheap⟩ := shopItemBuy_poor (J := J) (P := P) hcl hgold
    exact ⟨t, cl, hrun, by rw [hheap]; exact hcl, .inl ⟨hgold, rfl, rfl⟩⟩
  · rw [or_iff_right hgold]
    exact buysRight_rich hcl hgold hP

/-- A packet that buys an item. -/
def buyFrame (itemid : Nat) : Packet := frame 0x0379 (leBytes 2 itemid ++ List.replicate 10 0)

/-- A client that has just connected has no gold. -/
theorem shopItemBuy_iff_connected : ∃ cl,
    (fin (exec Env.plain (.addUser {}) (Server.start (Db.empty schema)))).heap 0 = some cl ∧
      BuysRight {} 0 (buyFrame 700) (fin (exec Env.plain (.addUser {}) (Server.start (Db.empty schema)))) cl :=
  ⟨{ recvpkts := 0, items := fun _ => {} }, rfl, (shopItemBuy_iff rfl (by decide)).mpr (.inl (by decide))⟩

/-- A character with gold, in the world. -/
def shopping : Server := fin (run (exec Env.plain) [.addUser {},
    .packet 0 (loginFrame (ascii "bob") (ascii "pw")) { now := 20 }, .packet 0 worldFrame {}]
  (Server.start ((withAccount (Db.empty schema) (ascii "bob") (ascii "pw") 0).add .characters
    [.name, .uid, .posid, .classid, .gold]
    [.text (ascii "hero"), .text (ascii "bob"), .int 0, .int 0, .int 100000])))

/-- The gold is taken, and no item is put anywhere. -/
theorem shopping_not_buysRight : ∃ cl, shopping.heap 0 = some cl ∧
    cl.playerInfo.gold = 100000 ∧ ¬ BuysRight {} 0 (buyFrame 700) shopping cl := by
  have hgold : (shopping.heap 0).map (·.playerInfo.gold) = some 100000 ∧
      (buyFrame 700).bought ≠ {} := by decide +kernel
  obtain ⟨hgold, hitem⟩ := hgold
  obtain ⟨cl, hcl, hgold⟩ := Option.map_eq_some_iff.mp hgold
  refine ⟨cl, hcl, hgold, fun h => hitem ?_⟩
  exact ((buysRight_rich hcl (by rw [hgold]; decide) (by decide)).mp h).1

end Destiny
