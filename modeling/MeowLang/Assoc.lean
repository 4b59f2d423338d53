/-! Lists of keys with values, in the order in which the keys were first set. -/
namespace MeowLang.Assoc

variable {κ α : Type} [BEq κ]

/-- Sets `k` to `v`: in the place of an equal key if there is one, otherwise at the end. -/
def insert (k : κ) (v : α) : List (κ × α) → List (κ × α)
  | [] => [(k, v)]
  | (k', v') :: rest => if k == k' then (k, v) :: rest else (k', v') :: insert k v rest

/-- Sets every key of `new` in turn. -/
def insertAll (new : List (κ × α)) (entries : List (κ × α)) : List (κ × α) :=
  new.foldl (fun entries (k, v) => insert k v entries) entries

def contains (k : κ) (entries : List (κ × α)) : Bool :=
  (entries.lookup k).isSome

end MeowLang.Assoc
