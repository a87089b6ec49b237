import Destiny.Server.ReadBack
import Destiny.SpawnIds
import Destiny.Text.Words

/-!
# Commands with arguments

`strtok` finds the words of a text in their order, whatever blanks stand between them. A
command with too few is answered with its usage, except that the first word goes to `atoi`
without a check.
-/

namespace Destiny

open Text Sql Prog

/-! ## Words of a text in memory

`p` stands before the text `x`, and `r` after its NUL. -/

section Words
variable {p x w r : Bytes} {ws : List Bytes} {s : Server} {n : Nat}

theorem scan_blank : scan (p ++ 32 :: x) p.length = scan (p ++ 32 :: x) (p.length + 1) := by
  have hnext : (p ++ 32 :: x).drop (p.length + 1) = x := by
    rw [List.drop_length_add_append]
    rfl
  rw [scan, scan, hnext, List.drop_left]
  rfl

/-- The scan of a text that has no more words ends at its end. -/
theorem scan_end : scan (p ++ 0 :: r) p.length = some ⟨none, p.length⟩ := by
  rw [scan, List.drop_left]
  simp [skipBlanks]

theorem tokenEnd_word (hw : ∀ c ∈ w, c ≠ 0 ∧ c ≠ 32) {sep : UInt8} (hsep : sep = 0 ∨ sep = 32)
    (i : Nat) : tokenEnd (w ++ sep :: r) i = some (i + w.length) := by
  induction w generalizing i with
  | nil => exact if_pos hsep
  | cons c w ih =>
    obtain ⟨h0, h32⟩ := hw c List.mem_cons_self
    rw [List.cons_append, tokenEnd, if_neg (not_or.mpr ⟨h0, h32⟩),
      ih (fun c hc => hw c (List.mem_cons_of_mem _ hc)), List.length_cons]
    congr 1
    omega

theorem scan_word (hne : w ≠ []) (hw : ∀ c ∈ w, c ≠ 0 ∧ c ≠ 32) {sep : UInt8}
    (hsep : sep = 0 ∨ sep = 32) :
    scan (p ++ (w ++ sep :: r)) p.length = some ⟨some w, p.length + w.length⟩ := by
  obtain ⟨c, v, rfl⟩ := List.exists_cons_of_ne_nil hne
  obtain ⟨h0, h32⟩ := hw c List.mem_cons_self
  have hskip : skipBlanks (c :: v ++ sep :: r) p.length = some p.length := if_neg h32
  have hat : (p ++ (c :: v ++ sep :: r))[p.length]? = some c := by simp
  have hword : ((p ++ (c :: v ++ sep :: r)).take (p.length + (c :: v).length)).drop p.length
      = c :: v := by
    rw [List.drop_take, List.drop_left, Nat.add_sub_cancel_left, List.take_left]
  rw [scan, List.drop_left, hskip, Option.bind_eq_bind, Option.bind_some, hat,
    if_neg (fun h => h0 (Option.some.inj h)), List.drop_left, tokenEnd_word hw hsep,
    Option.bind_some, hword]
  rfl

/-- No word is found where there is none. -/
theorem scan_none (hws : Text.words x = []) :
    ∃ j, scan (p ++ (x ++ 0 :: r)) p.length = some ⟨none, j⟩ := by
  induction starts x generalizing p with
  | nil => exact ⟨p.length, scan_end⟩
  | blank b _ ih =>
    obtain ⟨j, hj⟩ := ih (p := p ++ [32]) ((words_blank b).symm.trans hws)
    rw [List.length_append, List.append_assoc] at hj
    exact ⟨j, scan_blank.trans hj⟩
  | last w hne hw =>
    rw [words_single hne hw] at hws
    cases hws
  | word w b hne hw =>
    rw [words_word hne hw] at hws
    cases hws

/-- The first word is found, and the others follow it. -/
theorem token_text (h0 : 0 ∉ x) (hws : Text.words x = w :: ws) : ∃ p' x', 0 ∉ x' ∧
    Text.words x' = ws ∧ p'.length + x'.length = p.length + x.length ∧
    token (p ++ (x ++ 0 :: r)) p.length =
      some (w, p'.length, p' ++ (x' ++ 0 :: r)) := by
  have hletters : ∀ {v : Bytes}, (∀ c ∈ v, c ∈ x) → 32 ∉ v → ∀ c ∈ v, c ≠ 0 ∧ c ≠ 32 :=
    fun hsub h32 c hc => ⟨fun h => h0 (h ▸ hsub c hc), fun h => h32 (h ▸ hc)⟩
  induction starts x generalizing p with
  | nil => cases hws
  | blank b _ ih =>
    obtain ⟨p', x', h0', hws', hlen, ht⟩ := ih (p := p ++ [32])
      (fun h => h0 (List.mem_cons_of_mem _ h)) ((words_blank b).symm.trans hws)
      fun hsub => hletters fun c hc => List.mem_cons_of_mem _ (hsub c hc)
    refine ⟨p', x', h0', hws', ?_, ?_⟩
    · rw [hlen]
      simp
      omega
    · rw [List.length_append, List.append_assoc] at ht
      rw [token] at ht ⊢
      rw [← ht]
      exact congrArg (· >>= _) scan_blank
  | last v hne hv =>
    rw [words_single hne hv] at hws
    cases hws
    have hat : (p ++ (w ++ 0 :: r))[p.length + w.length]? = some 0 := by simp
    have hset : (p ++ (w ++ 0 :: r)).set (p.length + w.length) 0 = p ++ w ++ 0 :: r := by
      simp
    refine ⟨p ++ w, [], List.not_mem_nil, rfl, by simp, ?_⟩
    rw [token, scan_word hne (hletters (fun _ => id) hv) (.inl rfl), Option.bind_eq_bind,
      Option.bind_some, Option.bind_eq_bind, Option.bind_some, hat, if_pos rfl, hset,
      List.length_append]
    rfl
  | word v b hne hv =>
    rw [words_word hne hv] at hws
    cases hws
    have hmem : p ++ (w ++ 32 :: b ++ 0 :: r) = p ++ (w ++ 32 :: (b ++ 0 :: r)) := by simp
    have hat : (p ++ (w ++ 32 :: (b ++ 0 :: r)))[p.length + w.length]? ≠ some 0 := by simp
    have hset : (p ++ (w ++ 32 :: (b ++ 0 :: r))).set (p.length + w.length) 0 =
        p ++ w ++ [0] ++ (b ++ 0 :: r) := by
      simp
    refine ⟨p ++ w ++ [0], b, fun h => h0 (by simp [h]), rfl, by simp; omega, ?_⟩
    rw [hmem, token, scan_word hne (hletters (fun _ => by simp; tauto) hv) (.inr rfl),
      Option.bind_eq_bind, Option.bind_some, Option.bind_eq_bind, Option.bind_some, if_neg hat, hset,
      List.length_append, List.length_append]
    rfl

/-- A call of `strtok` that finds no word. -/
theorem strtok_none (hws : Text.words x = []) (s : Server) :
    ∃ j mem l, strtok (p ++ (x ++ 0 :: r)) p.length s =
      .ok (none, j, mem) { s with reads := l } := by
  obtain ⟨j, hj⟩ := scan_none (p := p) (r := r) hws
  unfold strtok
  rw [hj]
  exact ⟨_, _, _, rfl⟩

theorem consToken_apply (o : Option (List Bytes)) (s : Server) :
    (match o with
      | none => return none
      | some ts => return some (w :: ts) : M (Option (List Bytes))) s = .ok (o.map (w :: ·)) s := by
  cases o <;> rfl

/-- The calls of `strtok` find the words in order. -/
theorem strtokMany_text (h0 : 0 ∉ x) (s : Server) :
    ∃ l, strtokMany n (p ++ (x ++ 0 :: r)) p.length s =
      .ok (firstWords n x) { s with reads := l } := by
  induction n generalizing p x s with
  | zero => exact ⟨s.reads, by rw [firstWords, if_pos (Nat.zero_le _), List.take_zero]; rfl⟩
  | succ n ih =>
    cases hws : Text.words x with
    | nil =>
      obtain ⟨j, mem, l, h1⟩ := strtok_none (p := p) (r := r) hws s
      rw [firstWords_nil hws]
      exact ⟨l, bind_ok h1⟩
    | cons w ws =>
      obtain ⟨p', x', h0', rfl, -, ht⟩ := token_text (p := p) (r := r) h0 hws
      obtain ⟨l1, h1⟩ := strtok_apply ht s
      obtain ⟨l2, h2⟩ := ih (p := p') h0' { s with reads := l1 }
      rw [firstWords_cons hws]
      exact ⟨l2, (bind_ok h1).trans ((bind_ok h2).trans (consToken_apply _ _))⟩

/-- The arguments of a command are the first words of their text, when it has enough. -/
theorem arguments_text (hpre : p.length = 28) (h0 : 0 ∉ x) (hws : Text.words x ≠ []) (s : Server) :
    ∃ l, arguments n (p ++ (x ++ 0 :: r)) s =
      .ok (firstWords (n + 1) x) { s with reads := l } := by
  obtain ⟨w, ws, hws⟩ := List.exists_cons_of_ne_nil hws
  obtain ⟨p', x', h0', rfl, -, ht⟩ := token_text (p := p) (r := r) h0 hws
  rw [hpre] at ht
  obtain ⟨l1, h1⟩ := strtok_apply ht s
  obtain ⟨l2, h2⟩ := strtokMany_text (n := n) (p := p') (r := r) h0' { s with reads := l1 }
  rw [firstWords_cons hws]
  exact ⟨l2, (bind_ok h1).trans ((bind_ok h2).trans (consToken_apply _ _))⟩

/-- Without a word there is no first argument to give to `atoi`. -/
theorem arguments_none (hpre : p.length = 28) (hws : Text.words x = []) (s : Server) :
    ∃ l, arguments n (p ++ (x ++ 0 :: r)) s = .error .nullPtr { s with reads := l } := by
  obtain ⟨j, mem, l, h1⟩ := strtok_none (p := p) (r := r) hws s
  rw [hpre] at h1
  refine ⟨l, ?_⟩
  unfold arguments
  rw [bind_ok h1]
  rfl

end Words

/-! ## Commands -/

/-- The field of a packet that names its command, and the text of the arguments. -/
def Packet.commandText (P : Packet) : Bytes := cstr (P.data.drop 12)

def Packet.argText (P : Packet) : Bytes := cstr (P.data.drop 28)

/-- The commands that take arguments. -/
inductive GmCommand where
  | telexy
  | spawn
  | item
  deriving DecidableEq, Repr

namespace GmCommand

def name : GmCommand → Bytes
  | .telexy => ascii "telexy"
  | .spawn => ascii "spawn"
  | .item => ascii "item"

/-- How many arguments a command takes. -/
def count : GmCommand → Nat
  | .telexy => 2
  | .spawn => 3
  | .item => 8

def usage : GmCommand → Bytes
  | .telexy => ascii "Usage:_/telexy_<x>_<y>"
  | .spawn => ascii "Usage:_/spawn_<mobcode>_<mobid>_<name>"
  | .item => itemUsage

/-- What a command does with its arguments; with any other number it tells its usage. -/
def action (J : Junk) (c : Ptr) : GmCommand → List Bytes → M Bool
  | .telexy, [x, y] => do
    note (.gm c .telexy)
    pakGMTele c (atoi x) (atoi y)
  | .spawn, [mobcode, mobid, name] => pakGMSpawn J c (atoi mobcode) (atoi mobid) name
  | .item, [slotnum, itemid, add1, val1, add2, val2, add3, val3] =>
    pakGMItem c (atoi slotnum) (atoi itemid) (atoi add1) (atoi val1) (atoi add2) (atoi val2)
      (atoi add3) (atoi val3)
  | k, _ => do
    let _ ← sendServerMsg J c k.usage []
    return true

end GmCommand

/-- A command is carried out on its arguments when the text has enough words, and else
answered with its usage and nothing more. -/
def CarriedOut (J : Junk) (c : Ptr) (P : Packet) (k : GmCommand) (s : Server) : Prop :=
  ∃ l, packetCommand J c P s =
    match firstWords k.count P.argText with
    | some ts => k.action J c ts { s with reads := l }
    | none => .ok true
      (({ s with reads := l, packet := stores (serverMsg J k.usage) fun _ => 0 } : Server).sent c 108)

variable {J : Junk} {c : Ptr} {s : Server} {P : Packet} {k : GmCommand} {cl : CConnClient}

/-- The word that names the command is ended inside its field, so the arguments stay as the
packet has them. -/
theorem command_token {name : Bytes} {ws : List Bytes} (hname : 0 ∈ (P.data.drop 12).take 16)
    (hargs : 0 ∈ P.data.drop 28) (hws : Text.words P.commandText = name :: ws) :
    ∃ next p r, p.length = 28 ∧
      token P.mem 12 = some (name, next, p ++ (P.argText ++ 0 :: r)) := by
  obtain ⟨after, hafter⟩ := cstr_split (List.mem_of_mem_take hname)
  obtain ⟨r, hrest⟩ := cstr_split hargs
  have hlen : P.commandText.length < 16 := by
    have hcut : P.commandText = cstr ((P.data.drop 12).take 16) := by
      conv_lhs => rw [Packet.commandText, ← List.take_append_drop 16 (P.data.drop 12)]
      exact cstr_append_of_mem hname _
    rw [hcut]
    exact (cstr_length_lt hname).trans_le (List.length_take_le _ _)
  have h12 : (P.data.take 12).length = 12 := by
    have := List.length_pos_of_mem (List.mem_of_mem_take hname)
    rw [List.length_drop] at this
    rw [List.length_take]
    omega
  have hmem : P.mem = P.data.take 12 ++ (P.commandText ++ 0 :: (after ++ P.after)) := by
    conv_lhs => rw [Packet.mem, ← List.take_append_drop 12 P.data, hafter]
    simp [Packet.commandText]
  obtain ⟨p', x', -, -, hlen', ht⟩ :=
    token_text (p := P.data.take 12) (x := P.commandText) (r := after ++ P.after)
      (zero_not_mem_cstr _) hws
  rw [h12, ← hmem] at ht
  rw [h12] at hlen'
  -- what follows the name in the packet is not touched
  have hkeep : (p' ++ (x' ++ 0 :: (after ++ P.after))).drop 28 =
      P.argText ++ 0 :: (r ++ P.after) := by
    have hdrop : ∀ a : Bytes, a.length = 12 + P.commandText.length →
        (a ++ 0 :: (after ++ P.after)).drop 28 =
          (0 :: (after ++ P.after)).drop (28 - (12 + P.commandText.length)) := fun a ha => by
      rw [List.drop_append, List.drop_eq_nil_of_le (by omega), ha]
      rfl
    have hsame : (p' ++ (x' ++ 0 :: (after ++ P.after))).drop 28 = P.mem.drop 28 := by
      rw [hmem, ← List.append_assoc, ← List.append_assoc, hdrop _ (by rw [List.length_append, hlen']),
        hdrop _ (by rw [List.length_append, h12])]
    rw [hsame, Packet.mem, List.drop_append_of_le_length, hrest]
    · simp [Packet.argText]
    · have := List.length_pos_of_mem hargs
      rw [List.length_drop] at this
      omega
  refine ⟨p'.length, (p' ++ (x' ++ 0 :: (after ++ P.after))).take 28, r ++ P.after, ?_, ?_⟩
  · have := congrArg List.length hkeep
    simp only [List.length_drop, List.length_append, List.length_cons] at this
    rw [List.length_take]
    simp only [List.length_append, List.length_cons]
    omega
  · rw [← hkeep, List.take_append_drop]
    exact ht

/-- The branch of a command of a client that may give it. -/
theorem command_branch {accesslevel : Nat} (hlevel : 90 ≤ accesslevel) (mem : Bytes) :
    command J c accesslevel mem k.name =
      arguments (k.count - 1) mem >>= fun o => k.action J c (o.getD []) := by
  have hmay : ¬ 90 > accesslevel := Nat.not_lt.mpr hlevel
  cases k with
  | telexy =>
    rw [command, if_neg (by decide), if_pos (by rfl), if_neg hmay]
    refine bind_congr fun o => ?_
    rcases o with _ | _ | ⟨x, _ | ⟨y, _ | _⟩⟩ <;> rfl
  | spawn =>
    rw [command, if_neg (by decide), if_neg (by decide), if_pos (by rfl), if_neg hmay]
    refine bind_congr fun o => ?_
    rcases o with _ | _ | ⟨x, _ | ⟨y, _ | ⟨z, _ | _⟩⟩⟩ <;> rfl
  | item =>
    rw [command, if_neg (by decide), if_neg (by decide), if_neg (by decide), if_neg (by decide),
      if_neg (by decide), if_pos (by rfl), if_neg hmay]
    refine bind_congr fun o => ?_
    rcases o with _ | _ | ⟨x1, _ | ⟨x2, _ | ⟨x3, _ | ⟨x4, _ | ⟨x5, _ | ⟨x6, _ | ⟨x7, _ | ⟨x8, _ | _⟩⟩⟩⟩⟩⟩⟩⟩
    all_goals rfl

theorem usage_apply (hcl : s.heap c = some cl) : k.action J c [] s =
    .ok true (({ s with packet := stores (serverMsg J k.usage) fun _ => 0 } : Server).sent c 108) := by
  have hmsg : sendServerMsg J c k.usage [] s =
      .ok true (({ s with packet := stores (serverMsg J k.usage) fun _ => 0 } : Server).sent c 108) :=
    sendServerMsg_apply hcl (by cases k <;> decide) (by cases k <;> decide)
  cases k <;> exact bind_ok hmsg

/-- A command is carried out, or answered with its usage, exactly when its text has a word. -/
theorem packetCommand_iff (hcl : s.heap c = some cl) (hlevel : 90 ≤ cl.playerSession.accesslevel)
    (hname : 0 ∈ (P.data.drop 12).take 16) (hargs : 0 ∈ P.data.drop 28)
    (hk : (Text.words P.commandText).head? = some k.name) :
    CarriedOut J c P k s ↔ Text.words P.argText ≠ [] := by
  obtain ⟨ws, hws⟩ := List.head?_eq_some_iff.mp hk
  obtain ⟨next, p, r, hpre, ht⟩ := command_token hname hargs hws
  obtain ⟨l, hrun⟩ := packetCommand_apply (J := J) (c := c) (s := s) ht (by rw [hcl]; rfl)
  have hmay : 90 ≤ s.level c := by
    rw [Server.level, hcl]
    exact hlevel
  rw [command_branch hmay] at hrun
  have hcount : k.count - 1 + 1 = k.count := by cases k <;> rfl
  by_cases hw : Text.words P.argText = []
  · refine iff_of_false (fun hout => ?_) fun h => h hw
    obtain ⟨l', h⟩ := hout
    obtain ⟨l'', hnull⟩ := arguments_none (n := k.count - 1) (r := r) hpre hw { s with reads := l }
    rw [hrun.trans (bind_error hnull), ← hcount, firstWords_nil hw] at h
    cases h
  · refine iff_of_true ?_ hw
    obtain ⟨l', hfound⟩ := arguments_text (n := k.count - 1) (x := P.argText) (r := r) hpre
      (zero_not_mem_cstr _) hw { s with reads := l }
    rw [hcount] at hfound
    refine ⟨l', (hrun.trans (bind_ok hfound)).trans ?_⟩
    cases firstWords k.count P.argText with
    | none => exact usage_apply (s := { s with reads := l' }) hcl
    | some ts => rfl

/-- A command of a game master. -/
def commandFrame (name args : Bytes) : Packet :=
  frame 0x0334 (name ++ List.replicate (16 - name.length) 0 ++ args ++ [0])

/-- A game master that has logged in. -/
def gameMaster : Server :=
  fin (run (exec Env.plain) [.addUser {},
    .packet 0 (loginFrame (ascii "bob") (ascii "pw")) { now := 100 }] (Server.start (oneAccount 100)))

theorem gameMaster_level : ∃ cl, gameMaster.heap 0 = some cl ∧ 90 ≤ cl.playerSession.accesslevel := by
  have h : ∃ cl ∈ gameMaster.heap 0, 90 ≤ cl.playerSession.accesslevel := by decide +kernel
  exact h

/-- Blanks before, between and after the words do not matter. -/
theorem packetCommand_iff_telexy :
    CarriedOut {} 0 (commandFrame (ascii "telexy") (ascii "  10   20 ")) .telexy gameMaster := by
  obtain ⟨cl, hcl, hlevel⟩ := gameMaster_level
  exact (packetCommand_iff hcl hlevel (by decide) (by decide) (by decide)).mpr (by decide)

/-- A command without arguments ends the server. -/
theorem noArguments_crashes :
    thrown (packetCommand {} 0 (commandFrame (ascii "telexy") []) gameMaster) = some .nullPtr ∧
      ¬ CarriedOut {} 0 (commandFrame (ascii "telexy") []) .telexy gameMaster := by
  obtain ⟨cl, hcl, hlevel⟩ := gameMaster_level
  refine ⟨by decide +kernel, fun h => ?_⟩
  exact (packetCommand_iff hcl hlevel (by decide) (by decide) (by decide)).mp h (by decide)

/-- Blanks between words are skipped. -/
example : Text.words (ascii " tele  2100 2100") = [ascii "tele", ascii "2100", ascii "2100"] := by
  decide +kernel

end Destiny
