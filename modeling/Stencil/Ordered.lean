/-!
# Ordered associations

Association lists whose order can be seen in the output.

- `put` : sets the value of a key and moves the key to the end
-/

namespace Stencil
namespace Ordered

/-- Sets the value of a key, which then comes last. -/
def put {α : Type} (key : String) (value : α) (entries : List (String × α)) :
    List (String × α) :=
  entries.filter (·.1 != key) ++ [(key, value)]

/-- The association that results from setting the given keys in order. -/
def ofList {α : Type} (entries : List (String × α)) : List (String × α) :=
  entries.foldl (fun done e => put e.1 e.2 done) []

end Ordered
end Stencil
