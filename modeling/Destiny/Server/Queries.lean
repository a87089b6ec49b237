import Destiny.Schema

/-!
# The statements

The format strings the server hands to `DoSQL`, under a name each. A string literal
broken over lines keeps the tabs and blanks its continuation lines begin with.
-/

namespace Destiny.Query

/-! ## Accounts -/

def account : String := "SELECT username,password,active,online FROM accounts WHERE username='%s'"

def newAccount : String :=
  "INSERT INTO `accounts` (`username`,`password`,`active`) VALUES ('%s','%s','1')"

def accountRow : String := "SELECT * FROM accounts WHERE username='%s'"

def password : String :=
  "SELECT username,password,active,online FROM accounts " ++
  "WHERE username='%s' AND password='%s'"

def active : String :=
  "SELECT username,password,active,online FROM accounts " ++
  "WHERE username='%s' AND active='1'"

def offline : String :=
  "SELECT id,username,password,active,online FROM accounts " ++
  "WHERE username='%s' AND online='0'"

def level : String := "SELECT id, acesslevel FROM accounts WHERE username='%s'"

/-- The password check of `CharDelete`. -/
def ownAccount : String := "SELECT * FROM accounts WHERE username='%s' AND password='%s'"

/-! ## Characters -/

def chars : String :=
  "SELECT id,name,cexp,clevel,gold, " ++
  "\tcstr,cint,cdex,ccon,mobid,posid FROM characters " ++
  "\tWHERE uid='%s'"

def posid : String := "SELECT posid FROM characters WHERE name='%s'"

def charName : String := "SELECT name FROM characters WHERE name='%s'"

def charId : String := "SELECT id FROM characters WHERE name='%s'"

/-- The character in a slot of an account. -/
def charAt : String := "SELECT name FROM characters WHERE uid='%s' AND posid='%i'"

/-- The character `loaddata` loads. -/
def charData : String :=
  "SELECT id,cexp,clevel,gold,skpoints,stpoints,max_hp, " ++
  "\tmax_mp,cstr,cint,cdex,ccon,mobid,pos_x,pos_y,classid FROM characters " ++
  "\tWHERE name='%s' AND uid='%s'"

def newChar : String :=
  "INSERT INTO characters " ++
  "(name,uid,mobid,max_hp,max_mp,cstr,cint,cdex,ccon,gold,posid,classid,skpoints,stpoints," ++
  "skmpoints,clevel) " ++
  "                    VALUES " ++
  "('%s', '%s', '%i', 50, 10, '%i', '%i', '%i', '%i', 0, '%i', '%i', '%i', '%i', '%i', '%i')"

def deleteChar : String := "DELETE FROM characters WHERE name='%s'"

/-! ## Items -/

def charItems : String :=
  "SELECT slotnum,itemid,add1,add2,add3,addval1,addval2,addval3 FROM char_items " ++
  "WHERE owner='%s'"

def storage : String :=
  "SELECT slotnum,itemid,add1,add2,add3,addval1,addval2,addval3 FROM storage " ++
  "WHERE owner='%s'"

def newItem : String :=
  "INSERT INTO char_items " ++
  "(owner,slotnum,itemid,add1,addval1,add2,addval2,add3,addval3) " ++
  "                            VALUES " ++
  "('%i', '%i', '%i', '%i', '%i', '%i', '%i', '%i', '%i')"

def deleteItems : String := "DELETE FROM char_items WHERE owner='%i'"

/-- The statements that only read. -/
def selects : List String :=
  [account, accountRow, password, active, offline, level, ownAccount, chars, posid, charName,
    charId, charAt, charData, charItems, storage]

theorem prefix_of_mem_selects : ∀ q ∈ selects, Text.ascii "SELECT " <+: Text.ascii q := by
  decide +kernel

/-- The others change a table. -/
example : ∀ q ∈ [newAccount, newChar, newItem, deleteChar, deleteItems], q ∉ selects := by
  decide +kernel

end Destiny.Query
