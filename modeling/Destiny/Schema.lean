import Destiny.Sql.Engine

/-!
# The database

The tables of `destinyemu_db.sql` that the server reads or writes, with the types and
defaults of their columns. Every `int(n)` column holds a 32-bit integer, whatever its
display width. The tables share one type of columns: `id`, `owner`, `slotnum` and the
item columns mean the same in each table that has them.
-/

namespace Destiny

open Text Sql

inductive Table where
  | accounts
  | characters
  | charItems
  | storage
  deriving DecidableEq, Repr

inductive Col where
  | id
  | username | password | email | active | online | acesslevel | storageGold
  | name | uid | mobid | clevel | skpoints | stpoints | skmpoints | maxHp | maxMp
  | cstr | cint | cdex | ccon | cskills | quickBar | gold | cexp | posid | classid | posX | posY
  | owner | slotnum | itemid | add1 | addval1 | add2 | addval2 | add3 | addval3
  deriving DecidableEq, Repr

def Table.name : Table → String
  | .accounts => "accounts"
  | .characters => "characters"
  | .charItems => "char_items"
  | .storage => "storage"

def Col.ident : Col → String
  | .id => "id"
  | .username => "username"
  | .password => "password"
  | .email => "email"
  | .active => "active"
  | .online => "online"
  | .acesslevel => "acesslevel"
  | .storageGold => "storage_gold"
  | .name => "name"
  | .uid => "uid"
  | .mobid => "mobid"
  | .clevel => "clevel"
  | .skpoints => "skpoints"
  | .stpoints => "stpoints"
  | .skmpoints => "skmpoints"
  | .maxHp => "max_hp"
  | .maxMp => "max_mp"
  | .cstr => "cstr"
  | .cint => "cint"
  | .cdex => "cdex"
  | .ccon => "ccon"
  | .cskills => "cskills"
  | .quickBar => "quick_bar"
  | .gold => "gold"
  | .cexp => "cexp"
  | .posid => "posid"
  | .classid => "classid"
  | .posX => "pos_x"
  | .posY => "pos_y"
  | .owner => "owner"
  | .slotnum => "slotnum"
  | .itemid => "itemid"
  | .add1 => "add1"
  | .addval1 => "addval1"
  | .add2 => "add2"
  | .addval2 => "addval2"
  | .add3 => "add3"
  | .addval3 => "addval3"

def itemCols : List Col :=
  [.id, .owner, .slotnum, .itemid, .add1, .addval1, .add2, .addval2, .add3, .addval3]

/-- A table's columns, in the order of `SELECT *`. -/
def Table.columns : Table → List Col
  | .accounts => [.id, .username, .password, .email, .active, .online, .acesslevel, .storageGold]
  | .characters =>
    [.id, .name, .uid, .mobid, .clevel, .skpoints, .stpoints, .skmpoints, .maxHp, .maxMp,
      .cstr, .cint, .cdex, .ccon, .cskills, .quickBar, .gold, .cexp, .posid, .classid, .posX, .posY]
  | .charItems => itemCols
  | .storage => itemCols

def Col.kind : Col → Kind
  | .username | .name | .uid => .text 16
  | .password => .text 12
  | .email => .text 60
  | .cskills | .quickBar => .text 255
  | _ => .int

def Col.dflt : Col → Cell
  | .username | .password | .email | .name | .uid | .posid | .classid => .null
  | .acesslevel | .maxHp | .maxMp => .int 1
  | .cskills | .quickBar => .text (ascii "0")
  | .posX => .int 2093
  | .posY => .int 2097
  | _ => .int 0

def findTable (b : Bytes) : Option Table :=
  [.accounts, .characters, .charItems, .storage].find? fun t => ascii t.name == b

def findCol (t : Table) (b : Bytes) : Option Col := t.columns.find? fun k => ascii k.ident == b

def schema : Schema Table Col where
  table := findTable
  column := findCol
  columns := Table.columns
  key _ := .id
  kind := Col.kind
  dflt := Col.dflt
  key_kind _ := rfl
  dflt_kind k := by cases k <;> decide +kernel

/-- Rows are compared column by column. -/
instance : DecidableEq (Row Col) := fun r r' =>
  decidable_of_iff (∀ t ∈ [Table.accounts, .characters, .charItems], ∀ k ∈ t.columns, r k = r' k) <| by
    refine ⟨fun h => funext fun k => ?_, fun h t _ k _ => by rw [h]⟩
    have hk : ∃ t ∈ [Table.accounts, .characters, .charItems], k ∈ t.columns := by
      cases k <;> decide
    obtain ⟨t, ht, hk⟩ := hk
    exact h t ht k hk

abbrev Database := Db schema

abbrev MySQL := Engine schema

end Destiny
