import RoomCipher.Error
import RoomCipher.Text.Blank

/-! The tags that room participants exchange: which block cipher, which mode of
operation and which padding. A tag is read without regard to the case of its
letters or to blanks around it, and is always written in its one canonical
spelling. -/

namespace RoomCipher

inductive Algorithm where
  | loki97
  | rc5
  | magenta
  deriving DecidableEq

inductive Mode where
  | ecb
  | cbc
  | pcbc
  | cfb
  | ofb
  | ctr
  | randomDelta
  deriving DecidableEq

/-- How a message is filled up to whole blocks. -/
inductive Padding where
  | zeros
  | ansiX923
  | pkcs7
  | iso10126
  deriving DecidableEq

/-- A closed set of settings, each with a canonical spelling and an identifier. -/
class Tag (α : Type) where
  all : List α
  name : α → String
  label : α → String
  /-- The complaint about a text that spells none of them. -/
  unknown : String → ConfigError

namespace Tag

/-- Whether a text, read leniently, is this spelling. -/
def spells (text name : String) : Bool :=
  Text.sameLetters name.toList (Text.trim text.toList)

/-- The setting that a text spells. -/
def parse {α : Type} [Tag α] (text : String) : Except Error α :=
  match (all : List α).find? (spells text <| name ·) with
  | some setting => .ok setting
  | none => .error (.config (unknown α text))

end Tag

namespace Algorithm

def name : Algorithm → String
  | .loki97 => "loki97"
  | .rc5 => "rc5"
  | .magenta => "magenta"

/-- The algorithm's identifier in records. -/
def label : Algorithm → String
  | .loki97 => "Loki97"
  | .rc5 => "Rc5"
  | .magenta => "Magenta"

instance : Tag Algorithm where
  all := [.loki97, .rc5, .magenta]
  name := name
  label := label
  unknown := .unknownAlgorithm

end Algorithm

namespace Mode

def name : Mode → String
  | .ecb => "ECB"
  | .cbc => "CBC"
  | .pcbc => "PCBC"
  | .cfb => "CFB"
  | .ofb => "OFB"
  | .ctr => "CTR"
  | .randomDelta => "RandomDelta"

/-- The mode's identifier in records. -/
def label : Mode → String
  | .ecb => "Ecb"
  | .cbc => "Cbc"
  | .pcbc => "Pcbc"
  | .cfb => "Cfb"
  | .ofb => "Ofb"
  | .ctr => "Ctr"
  | .randomDelta => "RandomDelta"

instance : Tag Mode where
  all := [.ecb, .cbc, .pcbc, .cfb, .ofb, .ctr, .randomDelta]
  name := name
  label := label
  unknown := .unknownMode

/-- Whether a message starts from an agreed block. -/
def requiresIv : Mode → Bool
  | .ecb | .randomDelta => false
  | _ => true

/-- Whether the blocks of a message are worked on independently. -/
def isParallel : Mode → Bool
  | .ecb | .ctr => true
  | _ => false

end Mode

namespace Padding

def name : Padding → String
  | .zeros => "Zeros"
  | .ansiX923 => "ANSIX923"
  | .pkcs7 => "PKCS7"
  | .iso10126 => "ISO10126"

/-- The scheme's identifier in records. -/
def label : Padding → String
  | .zeros => "Zeros"
  | .ansiX923 => "AnsiX923"
  | .pkcs7 => "Pkcs7"
  | .iso10126 => "Iso10126"

instance : Tag Padding where
  all := [.zeros, .ansiX923, .pkcs7, .iso10126]
  name := name
  label := label
  unknown := .unknownPadding

end Padding

end RoomCipher
