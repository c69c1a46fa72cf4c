/-! Where a statement stands with respect to procedures. Only a bare `return` asks: outside of a
procedure it is refused, and as the last statement of one it can be left out. What stands inside
another statement is never the last statement of the procedure itself. -/

namespace Scribe

inductive Place where
  | outside
  | inside (procedure : String)
  | last (procedure : String)
  deriving DecidableEq

namespace Place

/-- The place of a statement within a statement at this place. -/
def nested : Place → Place
  | .last procedure => .inside procedure
  | place => place

@[simp] theorem nested_nested (p : Place) : p.nested.nested = p.nested := by
  cases p <;> rfl

end Place

end Scribe
