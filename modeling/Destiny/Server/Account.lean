import Destiny.Server.Extra

/-!
# Accounts and character lists

`CheckLogin`, the two packets that list an account's characters, and the creation and
deletion of characters.
-/

namespace Destiny

open Text Sql Prog

variable (E : Env) (J : Junk)

/-! ## Character lists -/

/-- The rows of an account's characters read into `chars`, each with its items; `none` when
the query for the items fails. -/
def fetchChars : List Fetched → List CCharacter → M (Option (List CCharacter))
  | [], chars => return some chars
  | row :: rows, chars => do
    let posid := chars.length
    check (posid < 6) .charsIndex
    let charName ← colName row 1
    let exp ← colInt row 2
    let level ← colInt row 3
    let gold ← colInt row 4
    let str ← colInt row 5
    let int ← colInt row 6
    let dex ← colInt row 7
    let con ← colInt row 8
    let mobid ← colInt row 9
    let owner ← col row 0
    match ← doSQL E Query.charItems [txt owner] with
    | none => return none
    | some rows2 => do
      -- only the first four characters' items are cleared
      let eqitems ← fetchItems 15 .eqitemsIndex rows2
        (if posid < 4 then fun _ => {} else J.eqitems posid)
      fetchChars rows (chars ++
        [⟨charName, u32 level, u32 exp, u32 mobid, u32 str, u32 int, u32 dex, u32 con, gold, eqitems⟩])

/-- The slot that the last row gives. -/
def lastPosid : List Fetched → Int → M Int
  | [], charpos => return charpos
  | row :: rows, _ => do
    let charpos ← colInt row 0
    lastPosid rows charpos

/-- A character's fields in a character list. -/
def charFields (ch : CCharacter) (charpos : Int) : List Write :=
  [addByte 0x41 (2 * charpos + 12), addByte 0x08 (2 * charpos + 13),
    addByte 0x30 (2 * charpos + 20), addByte 0x08 (2 * charpos + 21),
    addWord ch.level (28 * charpos + 92), addStr J ch.charName (16 * charpos + 28),
    addByte ch.mobid (128 * charpos + 204), addWord ch.str (28 * charpos + 108),
    addWord ch.int (28 * charpos + 110), addWord ch.dex (28 * charpos + 112),
    addWord ch.con (28 * charpos + 114), addDWord ch.gold (4 * charpos + 724),
    addDWord ch.exp (4 * charpos + 740)] ++
  (List.range 15).flatMap fun slotnum =>
    let item := ch.eqitems slotnum
    let off : Int := 8 * slotnum + 128 * charpos
    [addWord item.itemid (off + 212), addByte item.add1 (off + 214), addByte item.val1 (off + 215),
      addByte item.add2 (off + 216), addByte item.val2 (off + 217), addByte item.add3 (off + 218),
      addByte item.val3 (off + 219)]

/-- Each character written at the slot its name is stored with. -/
def writeChars (c : Ptr) : Nat → List CCharacter → M Bool
  | _, [] => return true
  | k, ch :: chars => do
    match ← doSQL E Query.posid [txt ch.charName] with
    | none => return false
    | some rows => do
      let charpos ← lastPosid rows (J.charpos k)
      note (.slot c charpos)
      writes (charFields J ch charpos)
      writeChars c (k + 1) chars

def selectChars (c : Ptr) : M (Option (List Fetched)) := do
  let thisclient ← client c
  doSQL E Query.chars [txt thisclient.playerSession.username.str]

def resendCharList (c : Ptr) : M Bool := do
  packetFree
  writes [addWord 1824 0, addWord 274 4]
  note (.listing c)
  match ← selectChars E c with
  | none => return false
  | some rows =>
    match ← fetchChars E J rows [] with
    | none => return true
    | some chars =>
      match ← writeChars E J c 0 chars with
      | false => return false
      | true => do
        sendPacket c 756
        return true

def storageFields (storageitems : Nat → CItem) : List Write :=
  (List.range 126).flatMap fun i : Nat =>
    let item := storageitems i
    let off : Int := 8 * i
    [addWord item.itemid (off + 756), addByte item.add1 (off + 758), addByte item.val1 (off + 759),
      addByte item.add2 (off + 760), addByte item.val2 (off + 761), addByte item.add3 (off + 762),
      addByte item.val3 (off + 763)]

def sendCharList (c : Ptr) : M Bool := do
  packetFree
  let thisclient ← client c
  let session := thisclient.playerSession
  writes [addWord 1824 0, addWord 0x010a 4, addWord session.userid 6]
  note (.listing c)
  match ← selectChars E c with
  | none => return false
  | some rows =>
    match ← fetchChars E J rows [] with
    | none => return true
    | some chars =>
      match ← doSQL E Query.storage [txt session.username.str] with
      | none => return false
      | some rows => do
        let storageitems ← fetchItems 126 .storageIndex rows
          fun j => if j < 125 then {} else J.storageLast
        match ← writeChars E J c 0 chars with
        | false => return false
        | true => do
          writes (storageFields storageitems)
          writes [addDWord 1500000000 1780, addStr J session.username.str 1800,
            addData J [] 1816 7, addWord session.clientid 120, addWord session.clientid 122,
            addWord session.clientid 124, addWord session.clientid 126]
          sendPacket c 1823
          return true

/-! ## Login -/

/-- The session takes the level of an account it was let into. -/
def Server.grant (s : Server) (c : Ptr) (acesslevel : Int) : Server :=
  { s.update c (fun cl => { cl with
      playerSession := { cl.playerSession with accesslevel := u32 acesslevel } }) with
    trace := .granted c acesslevel :: s.trace }

/-- The rows of a new account. -/
def takeNewAccount (c : Ptr) : List Fetched → M Unit
  | [] => pure ()
  | row :: rows => do
    let id ← colInt row 0
    modifySession c fun a => { a with userid := u32 (40000 + id) }
    let acesslevel ← colInt row 6
    modify fun s => s.grant c acesslevel
    takeNewAccount c rows

/-- The rows of an account that passed all checks; `false` when no client id is left. -/
def takeAccount (c : Ptr) : List Fetched → M Bool
  | [] => return true
  | row :: rows => do
    let id ← colInt row 0
    modifySession c fun a => { a with userid := u32 id }
    let clientid ← getNewClientID J
    modifySession c fun a => { a with clientid := clientid }
    if clientid = 0 then return false
    else do
      modifySession c fun a => { a with isLoggedIn := true }
      let acesslevel ← colInt row 1
      modify fun s => s.grant c acesslevel
      takeAccount c rows

/-- What `CheckLogin` copies from the packet: the two names and the client's version. -/
def readLogin (c : Ptr) (P : Packet) : M (Bytes × Bytes × Nat) := do
  let keysLogin ← rd P 64 16
  let password ← rd P 12 12
  let username ← rd P 24 12
  let cliver ← rdInt P 92 2
  let thisclient ← client c
  let u := (Field.copy 12 username).str
  modifySession c fun a => { a with password := .copy 12 password, username := .copy 12 username }
  modify fun s => { s with
    keysLogin := keysLogin, hash1 := E.getHash1 keysLogin thisclient.recvpkts }
  note (.loginTry c u)
  return (u, (Field.copy 12 password).str, cliver)

/-- The checks of `CheckLogin` and the branch they lead to. -/
def checkAccount (c : Ptr) (u p : Bytes) (cliver : Nat) : M Bool := do
  if (cliver : Int) ≥ E.cliversion then
    match ← doSQL E Query.account [txt u] with
    | none => return false
    | some rows =>
      if rows.length = 0 then
        if E.autoacc = 1 then
          match ← doSQL E Query.newAccount [txt u, txt p] with
          | none => return false
          | some _ => do
            note (.loginOk c u)
            match ← doSQL E Query.accountRow [txt u] with
            | none => return false
            | some rows => do
              takeNewAccount c rows
              sendCharList E J c
        else sendServerMsg J c E.lang.idInvalid [txt u]
      else
        match ← doSQL E Query.password [txt u, txt p] with
        | none => return false
        | some rows =>
          if rows.length = 0 then sendServerMsg J c E.lang.pwdInvalid []
          else
            match ← doSQL E Query.active [txt u] with
            | none => return false
            | some rows =>
              if rows.length = 0 then sendServerMsg J c E.lang.idNotactive [txt u]
              else
                match ← doSQL E Query.offline [txt u] with
                | none => return false
                | some rows =>
                  if rows.length = 0 then sendServerMsg J c E.lang.idOnline [txt u]
                  else do
                    note (.loginOk c u)
                    match ← doSQL E Query.level [txt u] with
                    | none => return false
                    | some rows =>
                      match ← takeAccount J c rows with
                      | false => return false
                      | true => sendCharList E J c
  else do
    let _ ← sendServerMsg J c (ascii "Wrong Client Version, Download Correct Version.") []
    return true

def checkLogin (c : Ptr) (P : Packet) : M Bool := do
  let (u, p, cliver) ← readLogin E c P
  checkAccount E J c u p cliver

/-! ## Creating and deleting characters -/

/-- `readXMLInteger`. -/
def readXMLInteger (node : Xml) (tag : String) : Option Int :=
  (node.props.find? fun p => p.1 == ascii tag).map fun p => atoi p.2

/-- Several attributes, if the element has them all. -/
def readXMLIntegers (node : Xml) : List String → Option (List Int)
  | [] => some []
  | tag :: tags => match readXMLInteger node tag, readXMLIntegers node tags with
    | some v, some vs => some (v :: vs)
    | _, _ => none

/-- The element name of a class. -/
def className (charclass : Nat) : Bytes :=
  match charclass with
  | 0 => ascii "transknight"
  | 1 => ascii "foema"
  | 2 => ascii "bestmaster"
  | 3 => ascii "hunter"
  | _ => J.cname

def itemTags : List String := ["slot", "itemid", "add1", "add2", "add3", "val1", "val2", "val3"]

def charTags : List String :=
  ["mobid", "level", "str", "int", "dex", "con", "skpts", "stpts", "skmpts"]

/-- The `inventory` elements of a class. -/
def createItems (charid : Int) : List Xml → M Unit
  | [] => pure ()
  | subp :: rest => do
    if subp.name = ascii "inventory" then
      match readXMLIntegers subp itemTags with
      | some [slotid, itemid, add1, add2, add3, val1, val2, val3] => do
        let _ ← doSQL E Query.newItem
          [.int charid, .int slotid, .int itemid, .int add1, .int val1, .int add2, .int val2,
            .int add3, .int val3]
        createItems charid rest
      | _ => createItems charid rest
    else createItems charid rest

/-- The elements of `StartChar.xml`; `charid` keeps its value from one to the next. -/
def createChars (username charname : Bytes) (charclass destpos : Nat) (charid : Int) :
    List Xml → M Bool
  | [] => return true
  | p :: rest => do
    if p.name = className J charclass then
      match readXMLIntegers p charTags with
      | some [mobid, level, cstr, cint, cdex, ccon, skpts, stpts, skmpts] => do
        let _ ← doSQL E Query.newChar
          [txt charname, txt username, .int mobid, .int cstr, .int cint, .int cdex, .int ccon,
            .int destpos, .int charclass, .int skpts, .int stpts, .int skmpts, .int level]
        match ← doSQL E Query.charId [txt charname] with
        | none => return false
        | some [] => throw .nullPtr
        | some (row :: _) => do
          let charid ← colInt row 0
          createItems E charid p.children
          createChars username charname charclass destpos charid rest
      | _ => do
        createItems E charid p.children
        createChars username charname charclass destpos charid rest
    else createChars username charname charclass destpos charid rest

def loadCreateChar (c : Ptr) (charclass : Nat) (charname : Bytes) (destpos : Nat) : M Bool := do
  let thisclient ← client c
  match E.startChar with
  | none => return false
  | some root =>
    if root.name ≠ ascii "startitems" then return false
    else
      createChars E J thisclient.playerSession.username.str charname charclass destpos J.charid
        root.children

def charCreate (c : Ptr) (P : Packet) : M Bool := do
  let field ← rd P 16 15
  let newcharname := cstr (field ++ J.afterName)
  match ← doSQL E Query.charName [txt newcharname] with
  | none => return false
  | some rows =>
    if rows.length = 0 then do
      let charclass ← rdInt P 32 1
      let destpos ← rdInt P 12 1
      let _ ← loadCreateChar E J c charclass newcharname destpos
      resendCharList E J c
    else sendServerMsg J c E.lang.nameAlreadyexist []

def charDelete (c : Ptr) (P : Packet) : M Bool := do
  let nameField ← rd P 16 15
  let passField ← rd P 32 12
  let delcharname := cstr (nameField ++ J.afterName)
  let delpassword := cstr (passField ++ J.afterPass)
  let thisclient ← client c
  let username := thisclient.playerSession.username.str
  match ← doSQL E Query.ownAccount [txt username, txt delpassword] with
  | none => return false
  | some rows =>
    if rows.length = 1 then
      match ← doSQL E Query.charId [txt delcharname] with
      | none => return false
      | some [] => throw .nullPtr
      | some (row2 :: _) => do
        -- the format is `%i`, so the pointer is printed, not the id
        let _ ← doSQL E Query.deleteItems [.str ((row2[0]?).join.getD []) J.rowAddr]
        let _ ← doSQL E Query.deleteChar [txt delcharname]
        resendCharList E J c
    else sendServerMsg J c E.lang.pwdInvalid []

end Destiny
