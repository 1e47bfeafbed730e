import Mathlib.Data.List.TakeWhile
import VeloxHash.CNumeral
import VeloxHash.EthStratumClient
import VeloxHash.RxMsr

/-! The text of an `MsrItem` in the configuration. -/

namespace VeloxHash.RxMsr.MsrItem

open CNumeral

/-- `String::split`. -/
def split (sep : Char) (text : List Char) : List (List Char) :=
  if text = [] then [[]] else (text.splitOn sep).filter (· ≠ [])

/-- `MsrItem::MsrItem(value)`. -/
def ofJson : Json → MsrItem
  | .string s =>
    match split ':' (cString s).toList with
    | reg :: value :: rest =>
      { reg := (CNumeral.strtoull reg).toUInt32
        value := CNumeral.strtoull value
        mask := match rest with
          | [] => kNoMask
          | mask :: _ => CNumeral.strtoull mask }
    | _ => {}
  | _ => {}

/-- What the format of `toString` gives. -/
def text (item : MsrItem) : List Char :=
  if item.mask ≠ kNoMask then
    hex item.reg.toNat ++ ':' :: hex item.value.toNat ++ ':' :: hex item.mask.toNat
  else hex item.reg.toNat ++ ':' :: hex item.value.toNat

/-- `snprintf` into a buffer of 48 bytes, the last of which ends the string. -/
def toString (item : MsrItem) : String := String.ofList (item.text.take 47)

def toJson (item : MsrItem) : Json := .string item.toString

section Fields

variable {fields : List Nat}

end Fields

section Text

variable (item : MsrItem)

end Text

end VeloxHash.RxMsr.MsrItem
