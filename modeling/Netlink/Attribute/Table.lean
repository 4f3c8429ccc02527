import Netlink.Attribute

/-!
# Attribute tables

A table holds the attributes of one stream by type. Where a type repeats, the last attribute stays;
types above the maximum are left out.
-/

namespace Netlink

structure Table where
  maxType : UInt16
  slots : Vector (Option Attribute) (maxType.toNat + 1)

namespace Table

def empty (maxType : UInt16) : Table := ⟨maxType, .replicate _ none⟩

def insert (t : Table) (a : Attribute) : Table :=
  { t with slots := t.slots.setIfInBounds a.type.toNat (some a) }

def ofList (as : List Attribute) (maxType : UInt16) : Table := as.foldl insert (empty maxType)

def ofStream (s : Attributes) (maxType : UInt16) : Table := ofList s.records maxType

def get? (t : Table) (type : UInt16) : Option Attribute := t.slots[type.toNat]?.join

def contains (t : Table) (type : UInt16) : Bool := (t.get? type).isSome

def toList (t : Table) : List Attribute := t.slots.toList.filterMap id

end Table

end Netlink
