import Scribe.Proofs.Outcome
import Scribe.Tree.Sameness

/-! Sameness of trees as equality. Two trees are the same if and only if they hold numbers only and
become equal when all zeros are made positive. So sameness is symmetric and transitive, a tree is the
same as itself as long as everything in it is a number, and without zeros sameness is equality, which
leaves nothing for the text of a script to differ in. -/

namespace Scribe

/-! ## Numbers -/

namespace Single

/-- The same number without the sign of zero. -/
def plain (x : Single) : Single := if x.isZero then ⟨0⟩ else x

theorem plain_of_isZero {x : Single} (h : x.isZero = true) : x.plain = ⟨0⟩ := if_pos h

theorem plain_of_not_isZero {x : Single} (h : x.isZero = false) : x.plain = x := by
  rw [plain, h, if_neg Bool.false_ne_true]

theorem isZero_plain (x : Single) : x.plain.isZero = x.isZero := by
  cases h : x.isZero with
  | false => rw [plain_of_not_isZero h, h]
  | true => rw [plain_of_isZero h]; rfl

theorem isNaN_of_isZero {x : Single} (h : x.isZero = true) : x.isNaN = false := by
  unfold isZero at h
  unfold isNaN
  simp only [Bool.and_eq_true, beq_iff_eq] at h
  simp [h]

theorem isNaN_plain (x : Single) : x.plain.isNaN = x.isNaN := by
  cases h : x.isZero with
  | false => rw [plain_of_not_isZero h]
  | true => rw [plain_of_isZero h, isNaN_of_isZero h]; rfl

theorem eq_of_plain_eq {x y : Single} (hx : x.isZero = false) (h : x.plain = y.plain) : x = y := by
  have hy : y.isZero = false := by rw [← isZero_plain, ← h, isZero_plain, hx]
  rwa [plain_of_not_isZero hx, plain_of_not_isZero hy] at h

theorem same_iff (x y : Single) :
    x.same y = true ↔ x.isNaN = false ∧ x.plain = y.plain := by
  have hnan : x.plain = y.plain → y.isNaN = x.isNaN := by
    intro h
    rw [← isNaN_plain y, ← h, isNaN_plain]
  have hplain : (x.bits == y.bits || (x.isZero && y.isZero)) = true ↔ x.plain = y.plain := by
    obtain ⟨a⟩ := x
    obtain ⟨b⟩ := y
    rw [Bool.or_eq_true, Bool.and_eq_true, beq_iff_eq]
    constructor
    · rintro (rfl | ⟨hx, hy⟩)
      · rfl
      · rw [plain_of_isZero hx, plain_of_isZero hy]
    · intro h
      cases hx : Single.isZero ⟨a⟩ with
      | false => exact Or.inl (congrArg bits (eq_of_plain_eq hx h))
      | true => exact Or.inr ⟨rfl, by rw [← isZero_plain, ← h, isZero_plain, hx]⟩
  rw [same, Bool.and_eq_true, hplain]
  constructor
  · rintro ⟨hnumbers, h⟩
    exact ⟨by simpa [hnan h] using hnumbers, h⟩
  · rintro ⟨hx, h⟩
    exact ⟨by rw [hnan h, hx]; rfl, h⟩

end Single

/-! ## The numbers of a tree -/

mutual

def Expr.floats : Expr → List Single
  | .float value => [value]
  | .member operand _ => operand.floats
  | .call _ arguments => Expr.floatsAll arguments
  | .unary _ operand => operand.floats
  | .binary _ left right => left.floats ++ right.floats
  | _ => []

def Expr.floatsAll : List Expr → List Single
  | [] => []
  | e :: es => e.floats ++ Expr.floatsAll es

end

def Expr.floatsOption : Option Expr → List Single
  | none => []
  | some e => e.floats

def EnumValue.floatsAll : List EnumValue → List Single
  | [] => []
  | v :: vs => v.value.floats ++ EnumValue.floatsAll vs

mutual

def Stmt.floats : Stmt → List Single
  | .block body => Stmt.floatsAll body
  | .branch condition body otherwise =>
    condition.floats ++ Stmt.floatsOption body ++ Stmt.floatsAllOption otherwise
  | .whileLoop condition body => condition.floats ++ body.floats
  | .forLoop init condition after body =>
    init.floats ++ condition.floats ++ after.floats ++ body.floats
  | .switch scrutinee arms => scrutinee.floats ++ Arm.floatsAll arms
  | .ret value => Expr.floatsOption value
  | .expr expr => expr.floats
  | .decl decl => decl.floats
  | _ => []

def Stmt.floatsAll : List Stmt → List Single
  | [] => []
  | s :: rest => s.floats ++ Stmt.floatsAll rest

def Stmt.floatsOption : Option Stmt → List Single
  | none => []
  | some s => s.floats

def Stmt.floatsAllOption : Option (List Stmt) → List Single
  | none => []
  | some body => Stmt.floatsAll body

def Arm.floats : Arm → List Single
  | .onCase value body => value.floats ++ Stmt.floatsAll body
  | .onDefault body => Stmt.floatsAll body

def Arm.floatsAll : List Arm → List Single
  | [] => []
  | arm :: rest => arm.floats ++ Arm.floatsAll rest

def Decl.floats : Decl → List Single
  | .prototype .. => []
  | .var declared => Expr.floatsOption declared.init
  | .procedure _ body => Stmt.floatsAllOption body
  | .enum _ values => EnumValue.floatsAll values
  | .enumValue value => value.value.floats

end

def Script.floats (s : Script) : List Single := s.declarations.flatMap Decl.floats

/-! ## Trees without the signs of zeros -/

mutual

def Expr.plain : Expr → Expr
  | .float value => .float value.plain
  | .member operand field => .member operand.plain field
  | .call function arguments => .call function (Expr.plainAll arguments)
  | .unary op operand => .unary op operand.plain
  | .binary op left right => .binary op left.plain right.plain
  | e => e

def Expr.plainAll : List Expr → List Expr
  | [] => []
  | e :: es => e.plain :: Expr.plainAll es

end

def Expr.plainOption : Option Expr → Option Expr
  | none => none
  | some e => some e.plain

def Variable.plain (v : Variable) : Variable := { v with init := Expr.plainOption v.init }

def EnumValue.plain (v : EnumValue) : EnumValue := { v with value := v.value.plain }

def EnumValue.plainAll : List EnumValue → List EnumValue
  | [] => []
  | v :: vs => v.plain :: EnumValue.plainAll vs

mutual

def Stmt.plain : Stmt → Stmt
  | .block body => .block (Stmt.plainAll body)
  | .branch condition body otherwise =>
    .branch condition.plain (Stmt.plainOption body) (Stmt.plainAllOption otherwise)
  | .whileLoop condition body => .whileLoop condition.plain body.plain
  | .forLoop init condition after body =>
    .forLoop init.plain condition.plain after.plain body.plain
  | .switch scrutinee arms => .switch scrutinee.plain (Arm.plainAll arms)
  | .ret value => .ret (Expr.plainOption value)
  | .expr expr => .expr expr.plain
  | .decl decl => .decl decl.plain
  | s => s

def Stmt.plainAll : List Stmt → List Stmt
  | [] => []
  | s :: rest => s.plain :: Stmt.plainAll rest

def Stmt.plainOption : Option Stmt → Option Stmt
  | none => none
  | some s => some s.plain

def Stmt.plainAllOption : Option (List Stmt) → Option (List Stmt)
  | none => none
  | some body => some (Stmt.plainAll body)

def Arm.plain : Arm → Arm
  | .onCase value body => .onCase value.plain (Stmt.plainAll body)
  | .onDefault body => .onDefault (Stmt.plainAll body)

def Arm.plainAll : List Arm → List Arm
  | [] => []
  | arm :: rest => arm.plain :: Arm.plainAll rest

def Decl.plain : Decl → Decl
  | .prototype index signature => .prototype index signature
  | .var declared => .var declared.plain
  | .procedure signature body => .procedure signature (Stmt.plainAllOption body)
  | .enum name values => .enum name (EnumValue.plainAll values)
  | .enumValue value => .enumValue value.plain

end

def Script.plain (s : Script) : Script := ⟨s.imports, s.declarations.map Decl.plain⟩

/-! ## Numbers of plain trees -/

mutual

theorem Expr.floats_plain (e : Expr) : e.plain.floats = e.floats.map Single.plain := by
  cases e with
  | member operand field => exact floats_plain operand
  | call function arguments => exact floatsAll_plainAll arguments
  | unary op operand => exact floats_plain operand
  | binary op left right =>
    simp only [Expr.plain, Expr.floats, List.map_append, floats_plain left, floats_plain right]
  | _ => rfl

theorem Expr.floatsAll_plainAll (es : List Expr) :
    Expr.floatsAll (Expr.plainAll es) = (Expr.floatsAll es).map Single.plain := by
  cases es with
  | nil => rfl
  | cons e es =>
    simp only [Expr.plainAll, Expr.floatsAll, List.map_append, floats_plain e,
      floatsAll_plainAll es]

end

theorem Expr.floatsOption_plainOption (e : Option Expr) :
    Expr.floatsOption (Expr.plainOption e) = (Expr.floatsOption e).map Single.plain := by
  cases e with
  | none => rfl
  | some e => exact e.floats_plain

theorem EnumValue.floatsAll_plainAll (vs : List EnumValue) :
    EnumValue.floatsAll (EnumValue.plainAll vs) = (EnumValue.floatsAll vs).map Single.plain := by
  induction vs with
  | nil => rfl
  | cons v vs ih =>
    simp only [EnumValue.plainAll, EnumValue.floatsAll, EnumValue.plain, List.map_append,
      Expr.floats_plain, ih]

mutual

theorem Stmt.floats_plain (s : Stmt) : s.plain.floats = s.floats.map Single.plain := by
  cases s with
  | block body => exact Stmt.floatsAll_plainAll body
  | branch condition body otherwise =>
    simp only [Stmt.plain, Stmt.floats, List.map_append, Expr.floats_plain,
      Stmt.floatsOption_plainOption body, Stmt.floatsAllOption_plainAllOption otherwise]
  | whileLoop condition body =>
    simp only [Stmt.plain, Stmt.floats, List.map_append, Expr.floats_plain,
      Stmt.floats_plain body]
  | forLoop init condition after body =>
    simp only [Stmt.plain, Stmt.floats, List.map_append, Expr.floats_plain,
      Stmt.floats_plain body]
  | switch scrutinee arms =>
    simp only [Stmt.plain, Stmt.floats, List.map_append, Expr.floats_plain,
      Arm.floatsAll_plainAll arms]
  | ret value => exact Expr.floatsOption_plainOption value
  | expr expr => exact expr.floats_plain
  | decl decl => exact Decl.floats_plain decl
  | _ => rfl

theorem Stmt.floatsAll_plainAll (body : List Stmt) :
    Stmt.floatsAll (Stmt.plainAll body) = (Stmt.floatsAll body).map Single.plain := by
  cases body with
  | nil => rfl
  | cons s rest =>
    simp only [Stmt.plainAll, Stmt.floatsAll, List.map_append, Stmt.floats_plain s,
      Stmt.floatsAll_plainAll rest]

theorem Stmt.floatsOption_plainOption (body : Option Stmt) :
    Stmt.floatsOption (Stmt.plainOption body) = (Stmt.floatsOption body).map Single.plain := by
  cases body with
  | none => rfl
  | some s => exact Stmt.floats_plain s

theorem Stmt.floatsAllOption_plainAllOption (body : Option (List Stmt)) :
    Stmt.floatsAllOption (Stmt.plainAllOption body) =
      (Stmt.floatsAllOption body).map Single.plain := by
  cases body with
  | none => rfl
  | some body => exact Stmt.floatsAll_plainAll body

theorem Arm.floats_plain (arm : Arm) : arm.plain.floats = arm.floats.map Single.plain := by
  cases arm with
  | onCase value body =>
    simp only [Arm.plain, Arm.floats, List.map_append, Expr.floats_plain,
      Stmt.floatsAll_plainAll body]
  | onDefault body => exact Stmt.floatsAll_plainAll body

theorem Arm.floatsAll_plainAll (arms : List Arm) :
    Arm.floatsAll (Arm.plainAll arms) = (Arm.floatsAll arms).map Single.plain := by
  cases arms with
  | nil => rfl
  | cons arm rest =>
    simp only [Arm.plainAll, Arm.floatsAll, List.map_append, Arm.floats_plain arm,
      Arm.floatsAll_plainAll rest]

theorem Decl.floats_plain (d : Decl) : d.plain.floats = d.floats.map Single.plain := by
  cases d with
  | prototype index signature => rfl
  | var declared => exact Expr.floatsOption_plainOption declared.init
  | procedure signature body => exact Stmt.floatsAllOption_plainAllOption body
  | enum name values => exact EnumValue.floatsAll_plainAll values
  | enumValue value => exact value.value.floats_plain

end

theorem Script.floats_plain (s : Script) : s.plain.floats = s.floats.map Single.plain := by
  have hall : ∀ ds : List Decl,
      (ds.map Decl.plain).flatMap Decl.floats = (ds.flatMap Decl.floats).map Single.plain := by
    intro ds
    induction ds with
    | nil => rfl
    | cons d ds ih =>
      simp only [List.map_cons, List.flatMap_cons, List.map_append, Decl.floats_plain, ih]
  exact hall s.declarations

/-! ## Trees without zeros -/

/-- None of these is a zero of either sign. -/
def NoZero (xs : List Single) : Prop := ∀ x ∈ xs, x.isZero = false

theorem noZero_append {a b : List Single} : NoZero (a ++ b) ↔ NoZero a ∧ NoZero b :=
  List.forall_mem_append

mutual

theorem Expr.plain_of_noZero {e : Expr} (h : NoZero e.floats) : e.plain = e := by
  cases e with
  | float value =>
    have hvalue : value.isZero = false := h value (List.mem_singleton_self value)
    rw [Expr.plain, Single.plain_of_not_isZero hvalue]
  | member operand field => exact congrArg (Expr.member · field) (plain_of_noZero h)
  | call function arguments => exact congrArg (Expr.call function) (plainAll_of_noZero h)
  | unary op operand => exact congrArg (Expr.unary op) (plain_of_noZero h)
  | binary op left right =>
    obtain ⟨hleft, hright⟩ := noZero_append.mp h
    rw [Expr.plain, plain_of_noZero hleft, plain_of_noZero hright]
  | _ => rfl

theorem Expr.plainAll_of_noZero {es : List Expr} (h : NoZero (Expr.floatsAll es)) :
    Expr.plainAll es = es := by
  cases es with
  | nil => rfl
  | cons e es =>
    obtain ⟨he, hes⟩ := noZero_append.mp h
    rw [Expr.plainAll, plain_of_noZero he, plainAll_of_noZero hes]

end

theorem Expr.plainOption_of_noZero {e : Option Expr} (h : NoZero (Expr.floatsOption e)) :
    Expr.plainOption e = e := by
  cases e with
  | none => rfl
  | some e => rw [Expr.plainOption, plain_of_noZero h]

theorem EnumValue.plainAll_of_noZero {vs : List EnumValue} (h : NoZero (EnumValue.floatsAll vs)) :
    EnumValue.plainAll vs = vs := by
  induction vs with
  | nil => rfl
  | cons v vs ih =>
    obtain ⟨hv, hvs⟩ := noZero_append.mp h
    rw [EnumValue.plainAll, EnumValue.plain, Expr.plain_of_noZero hv, ih hvs]

mutual

theorem Stmt.plain_of_noZero {s : Stmt} (h : NoZero s.floats) : s.plain = s := by
  cases s with
  | block body => exact congrArg Stmt.block (Stmt.plainAll_of_noZero h)
  | branch condition body otherwise =>
    obtain ⟨hthen, hotherwise⟩ := noZero_append.mp h
    obtain ⟨hcondition, hbody⟩ := noZero_append.mp hthen
    rw [Stmt.plain, Expr.plain_of_noZero hcondition, Stmt.plainOption_of_noZero hbody,
      Stmt.plainAllOption_of_noZero hotherwise]
  | whileLoop condition body =>
    obtain ⟨hcondition, hbody⟩ := noZero_append.mp h
    rw [Stmt.plain, Expr.plain_of_noZero hcondition, Stmt.plain_of_noZero hbody]
  | forLoop init condition after body =>
    obtain ⟨hhead, hbody⟩ := noZero_append.mp h
    obtain ⟨hhead, hafter⟩ := noZero_append.mp hhead
    obtain ⟨hinit, hcondition⟩ := noZero_append.mp hhead
    rw [Stmt.plain, Expr.plain_of_noZero hinit, Expr.plain_of_noZero hcondition,
      Expr.plain_of_noZero hafter, Stmt.plain_of_noZero hbody]
  | switch scrutinee arms =>
    obtain ⟨hscrutinee, harms⟩ := noZero_append.mp h
    rw [Stmt.plain, Expr.plain_of_noZero hscrutinee, Arm.plainAll_of_noZero harms]
  | ret value => exact congrArg Stmt.ret (Expr.plainOption_of_noZero h)
  | expr expr => exact congrArg Stmt.expr (Expr.plain_of_noZero h)
  | decl decl => exact congrArg Stmt.decl (Decl.plain_of_noZero h)
  | _ => rfl

theorem Stmt.plainAll_of_noZero {body : List Stmt} (h : NoZero (Stmt.floatsAll body)) :
    Stmt.plainAll body = body := by
  cases body with
  | nil => rfl
  | cons s rest =>
    obtain ⟨hs, hrest⟩ := noZero_append.mp h
    rw [Stmt.plainAll, Stmt.plain_of_noZero hs, Stmt.plainAll_of_noZero hrest]

theorem Stmt.plainOption_of_noZero {body : Option Stmt} (h : NoZero (Stmt.floatsOption body)) :
    Stmt.plainOption body = body := by
  cases body with
  | none => rfl
  | some s => exact congrArg some (Stmt.plain_of_noZero h)

theorem Stmt.plainAllOption_of_noZero {body : Option (List Stmt)}
    (h : NoZero (Stmt.floatsAllOption body)) : Stmt.plainAllOption body = body := by
  cases body with
  | none => rfl
  | some body => exact congrArg some (Stmt.plainAll_of_noZero h)

theorem Arm.plain_of_noZero {arm : Arm} (h : NoZero arm.floats) : arm.plain = arm := by
  cases arm with
  | onCase value body =>
    obtain ⟨hvalue, hbody⟩ := noZero_append.mp h
    rw [Arm.plain, Expr.plain_of_noZero hvalue, Stmt.plainAll_of_noZero hbody]
  | onDefault body => exact congrArg Arm.onDefault (Stmt.plainAll_of_noZero h)

theorem Arm.plainAll_of_noZero {arms : List Arm} (h : NoZero (Arm.floatsAll arms)) :
    Arm.plainAll arms = arms := by
  cases arms with
  | nil => rfl
  | cons arm rest =>
    obtain ⟨harm, hrest⟩ := noZero_append.mp h
    rw [Arm.plainAll, Arm.plain_of_noZero harm, Arm.plainAll_of_noZero hrest]

theorem Decl.plain_of_noZero {d : Decl} (h : NoZero d.floats) : d.plain = d := by
  cases d with
  | prototype index signature => rfl
  | var declared => rw [Decl.plain, Variable.plain, Expr.plainOption_of_noZero h]
  | procedure signature body =>
    exact congrArg (Decl.procedure signature) (Stmt.plainAllOption_of_noZero h)
  | enum name values => exact congrArg (Decl.enum name) (EnumValue.plainAll_of_noZero h)
  | enumValue value => rw [Decl.plain, EnumValue.plain, Expr.plain_of_noZero h]

end

theorem Script.plain_of_noZero {s : Script} (h : NoZero s.floats) : s.plain = s := by
  have hall : ∀ ds : List Decl, NoZero (ds.flatMap Decl.floats) → ds.map Decl.plain = ds := by
    intro ds
    induction ds with
    | nil => exact fun _ => rfl
    | cons d ds ih =>
      intro h
      obtain ⟨hd, hds⟩ := noZero_append.mp h
      rw [List.map_cons, Decl.plain_of_noZero hd, ih hds]
  rw [Script.plain, hall s.declarations h]

/-! ## Sameness and plain trees -/

/-- Not one of these is not a number. -/
def AllNumbers (xs : List Single) : Prop := ∀ x ∈ xs, x.isNaN = false

theorem allNumbers_append {a b : List Single} :
    AllNumbers (a ++ b) ↔ AllNumbers a ∧ AllNumbers b :=
  List.forall_mem_append

theorem allNumbers_nil : AllNumbers [] := nofun

private theorem false_iff_of_ne {α : Type} {xs : List Single} {a b : α} (h : a ≠ b) :
    false = true ↔ AllNumbers xs ∧ a = b :=
  ⟨nofun, fun hb => absurd hb.2 h⟩

mutual

theorem Expr.same_iff (a b : Expr) :
    a.same b = true ↔ AllNumbers a.floats ∧ a.plain = b.plain := by
  cases a with
  | bool x | int x | uint x | string x | name x | typeName x =>
    cases b <;> simp [Expr.same, Expr.floats, Expr.plain, allNumbers_nil]
  | float x =>
    cases b with
    | float y => simp [Expr.same, Expr.floats, Expr.plain, AllNumbers, Single.same_iff]
    | _ => exact false_iff_of_ne nofun
  | member a f =>
    cases b with
    | member b g => simp [Expr.same, Expr.floats, Expr.plain, same_iff a b, and_assoc]
    | _ => exact false_iff_of_ne nofun
  | call f as =>
    cases b with
    | call g bs => simp [Expr.same, Expr.floats, Expr.plain, sameAll_iff as bs, and_left_comm]
    | _ => exact false_iff_of_ne nofun
  | unary o a =>
    cases b with
    | unary p b => simp [Expr.same, Expr.floats, Expr.plain, same_iff a b, and_left_comm]
    | _ => exact false_iff_of_ne nofun
  | binary o a c =>
    cases b with
    | binary p b d =>
      simp [Expr.same, Expr.floats, Expr.plain, same_iff a b, same_iff c d, allNumbers_append,
        and_assoc, and_left_comm]
    | _ => exact false_iff_of_ne nofun

theorem Expr.sameAll_iff (as bs : List Expr) :
    Expr.sameAll as bs = true ↔
      AllNumbers (Expr.floatsAll as) ∧ Expr.plainAll as = Expr.plainAll bs := by
  cases as with
  | nil =>
    cases bs with
    | nil => simp [Expr.sameAll, Expr.floatsAll, allNumbers_nil]
    | cons b bs => exact false_iff_of_ne nofun
  | cons a as =>
    cases bs with
    | nil => exact false_iff_of_ne nofun
    | cons b bs =>
      simp [Expr.sameAll, Expr.floatsAll, Expr.plainAll, same_iff a b, sameAll_iff as bs,
        allNumbers_append, and_assoc, and_left_comm]

end

theorem Expr.sameOption_iff (a b : Option Expr) :
    Expr.sameOption a b = true ↔
      AllNumbers (Expr.floatsOption a) ∧ Expr.plainOption a = Expr.plainOption b := by
  cases a with
  | none =>
    cases b with
    | none => simp [Expr.sameOption, Expr.floatsOption, allNumbers_nil]
    | some b => exact false_iff_of_ne nofun
  | some a =>
    cases b with
    | none => exact false_iff_of_ne nofun
    | some b =>
      simp [Expr.sameOption, Expr.floatsOption, Expr.plainOption, Expr.same_iff a b]

theorem Variable.same_iff (a b : Variable) :
    a.same b = true ↔ AllNumbers (Expr.floatsOption a.init) ∧ a.plain = b.plain := by
  obtain ⟨modifier, type, name, init⟩ := a
  obtain ⟨modifier', type', name', init'⟩ := b
  simp [Variable.same, Variable.plain, Expr.sameOption_iff init init', and_assoc, and_left_comm]

theorem EnumValue.same_iff (a b : EnumValue) :
    a.same b = true ↔ AllNumbers a.value.floats ∧ a.plain = b.plain := by
  obtain ⟨name, value⟩ := a
  obtain ⟨name', value'⟩ := b
  simp [EnumValue.same, EnumValue.plain, Expr.same_iff value value', and_left_comm]

theorem EnumValue.sameAll_iff (as bs : List EnumValue) :
    EnumValue.sameAll as bs = true ↔
      AllNumbers (EnumValue.floatsAll as) ∧ EnumValue.plainAll as = EnumValue.plainAll bs := by
  induction as generalizing bs with
  | nil =>
    cases bs with
    | nil => simp [EnumValue.sameAll, EnumValue.floatsAll, allNumbers_nil]
    | cons b bs => exact false_iff_of_ne nofun
  | cons a as ih =>
    cases bs with
    | nil => exact false_iff_of_ne nofun
    | cons b bs =>
      simp [EnumValue.sameAll, EnumValue.floatsAll, EnumValue.plainAll, EnumValue.same_iff a b,
        ih bs, allNumbers_append, and_assoc, and_left_comm]

mutual

theorem Stmt.same_iff (a b : Stmt) :
    a.same b = true ↔ AllNumbers a.floats ∧ a.plain = b.plain := by
  cases a with
  | block as =>
    cases b with
    | block bs => simp [Stmt.same, Stmt.floats, Stmt.plain, Stmt.sameAll_iff as bs]
    | _ => simp [Stmt.same, Stmt.plain]
  | branch c a e =>
    cases b with
    | branch d b f =>
      simp [Stmt.same, Stmt.floats, Stmt.plain, Expr.same_iff c d, Stmt.sameOption_iff a b,
        Stmt.sameAllOption_iff e f, allNumbers_append, and_assoc, and_left_comm]
    | _ => simp [Stmt.same, Stmt.plain]
  | whileLoop c a =>
    cases b with
    | whileLoop d b =>
      simp [Stmt.same, Stmt.floats, Stmt.plain, Expr.same_iff c d, Stmt.same_iff a b,
        allNumbers_append, and_assoc, and_left_comm]
    | _ => simp [Stmt.same, Stmt.plain]
  | forLoop i c n a =>
    cases b with
    | forLoop j d m b =>
      simp [Stmt.same, Stmt.floats, Stmt.plain, Expr.same_iff i j, Expr.same_iff c d,
        Expr.same_iff n m, Stmt.same_iff a b, allNumbers_append, and_assoc, and_left_comm]
    | _ => simp [Stmt.same, Stmt.plain]
  | switch c as =>
    cases b with
    | switch d bs =>
      simp [Stmt.same, Stmt.floats, Stmt.plain, Expr.same_iff c d, Arm.sameAll_iff as bs,
        allNumbers_append, and_assoc, and_left_comm]
    | _ => simp [Stmt.same, Stmt.plain]
  | ret a =>
    cases b with
    | ret b => simp [Stmt.same, Stmt.floats, Stmt.plain, Expr.sameOption_iff a b]
    | _ => simp [Stmt.same, Stmt.plain]
  | expr a =>
    cases b with
    | expr b => simp [Stmt.same, Stmt.floats, Stmt.plain, Expr.same_iff a b]
    | _ => simp [Stmt.same, Stmt.plain]
  | decl a =>
    cases b with
    | decl b => simp [Stmt.same, Stmt.floats, Stmt.plain, Decl.same_iff a b]
    | _ => simp [Stmt.same, Stmt.plain]
  | breakLoop | continueLoop | goto a | label a | comment a =>
    cases b <;> simp [Stmt.same, Stmt.floats, Stmt.plain, allNumbers_nil]

theorem Stmt.sameAll_iff (as bs : List Stmt) :
    Stmt.sameAll as bs = true ↔
      AllNumbers (Stmt.floatsAll as) ∧ Stmt.plainAll as = Stmt.plainAll bs := by
  cases as with
  | nil =>
    cases bs with
    | nil => simp [Stmt.sameAll, Stmt.floatsAll, allNumbers_nil]
    | cons b bs => simp [Stmt.sameAll, Stmt.plainAll]
  | cons a as =>
    cases bs with
    | nil => simp [Stmt.sameAll, Stmt.plainAll]
    | cons b bs =>
      simp [Stmt.sameAll, Stmt.floatsAll, Stmt.plainAll, Stmt.same_iff a b,
        Stmt.sameAll_iff as bs, allNumbers_append, and_assoc, and_left_comm]

theorem Stmt.sameOption_iff (a b : Option Stmt) :
    Stmt.sameOption a b = true ↔
      AllNumbers (Stmt.floatsOption a) ∧ Stmt.plainOption a = Stmt.plainOption b := by
  cases a with
  | none =>
    cases b with
    | none => simp [Stmt.sameOption, Stmt.floatsOption, allNumbers_nil]
    | some b => simp [Stmt.sameOption, Stmt.plainOption]
  | some a =>
    cases b with
    | none => simp [Stmt.sameOption, Stmt.plainOption]
    | some b => simp [Stmt.sameOption, Stmt.floatsOption, Stmt.plainOption, Stmt.same_iff a b]

theorem Stmt.sameAllOption_iff (a b : Option (List Stmt)) :
    Stmt.sameAllOption a b = true ↔
      AllNumbers (Stmt.floatsAllOption a) ∧ Stmt.plainAllOption a = Stmt.plainAllOption b := by
  cases a with
  | none =>
    cases b with
    | none => simp [Stmt.sameAllOption, Stmt.floatsAllOption, allNumbers_nil]
    | some b => simp [Stmt.sameAllOption, Stmt.plainAllOption]
  | some a =>
    cases b with
    | none => simp [Stmt.sameAllOption, Stmt.plainAllOption]
    | some b =>
      simp [Stmt.sameAllOption, Stmt.floatsAllOption, Stmt.plainAllOption, Stmt.sameAll_iff a b]

theorem Arm.same_iff (a b : Arm) :
    a.same b = true ↔ AllNumbers a.floats ∧ a.plain = b.plain := by
  cases a with
  | onCase v a =>
    cases b with
    | onCase w b =>
      simp [Arm.same, Arm.floats, Arm.plain, Expr.same_iff v w, Stmt.sameAll_iff a b,
        allNumbers_append, and_assoc, and_left_comm]
    | onDefault b => simp [Arm.same, Arm.plain]
  | onDefault a =>
    cases b with
    | onCase w b => simp [Arm.same, Arm.plain]
    | onDefault b => simp [Arm.same, Arm.floats, Arm.plain, Stmt.sameAll_iff a b]

theorem Arm.sameAll_iff (as bs : List Arm) :
    Arm.sameAll as bs = true ↔
      AllNumbers (Arm.floatsAll as) ∧ Arm.plainAll as = Arm.plainAll bs := by
  cases as with
  | nil =>
    cases bs with
    | nil => simp [Arm.sameAll, Arm.floatsAll, allNumbers_nil]
    | cons b bs => simp [Arm.sameAll, Arm.plainAll]
  | cons a as =>
    cases bs with
    | nil => simp [Arm.sameAll, Arm.plainAll]
    | cons b bs =>
      simp [Arm.sameAll, Arm.floatsAll, Arm.plainAll, Arm.same_iff a b, Arm.sameAll_iff as bs,
        allNumbers_append, and_assoc, and_left_comm]

theorem Decl.same_iff (a b : Decl) :
    a.same b = true ↔ AllNumbers a.floats ∧ a.plain = b.plain := by
  cases a with
  | prototype i s =>
    cases b with
    | prototype j t => simp [Decl.same, Decl.floats, Decl.plain, allNumbers_nil]
    | _ => simp [Decl.same, Decl.plain]
  | var a =>
    cases b with
    | var b => simp [Decl.same, Decl.floats, Decl.plain, Variable.same_iff a b]
    | _ => simp [Decl.same, Decl.plain]
  | procedure s a =>
    cases b with
    | procedure t b =>
      simp [Decl.same, Decl.floats, Decl.plain, Stmt.sameAllOption_iff a b, and_left_comm]
    | _ => simp [Decl.same, Decl.plain]
  | enum n as =>
    cases b with
    | enum m bs =>
      simp [Decl.same, Decl.floats, Decl.plain, EnumValue.sameAll_iff as bs, and_left_comm]
    | _ => simp [Decl.same, Decl.plain]
  | enumValue a =>
    cases b with
    | enumValue b => simp [Decl.same, Decl.floats, Decl.plain, EnumValue.same_iff a b]
    | _ => simp [Decl.same, Decl.plain]

end

theorem Decl.sameAll_iff (as bs : List Decl) :
    Decl.sameAll as bs = true ↔
      AllNumbers (as.flatMap Decl.floats) ∧ as.map Decl.plain = bs.map Decl.plain := by
  induction as generalizing bs with
  | nil =>
    cases bs with
    | nil => simp [Decl.sameAll, allNumbers_nil]
    | cons b bs => exact false_iff_of_ne nofun
  | cons a as ih =>
    cases bs with
    | nil => exact false_iff_of_ne nofun
    | cons b bs =>
      simp [Decl.sameAll, Decl.same_iff a b, ih bs, allNumbers_append, and_assoc, and_left_comm]

theorem Script.same_iff (a b : Script) :
    a.same b = true ↔ AllNumbers a.floats ∧ a.plain = b.plain := by
  simp [Script.same, Script.floats, Script.plain, Decl.sameAll_iff, and_left_comm]

theorem Script.eq_of_same {a b : Script} (h : a.same b = true) (hzero : NoZero a.floats) :
    a = b := by
  have hplain : a.plain = b.plain := ((a.same_iff b).mp h).2
  have hfloats : ∀ x ∈ b.floats, x.isZero = false := by
    intro x hx
    -- up to the signs of zeros, both scripts hold the same numbers
    have hmem : x.plain ∈ b.floats.map Single.plain := List.mem_map_of_mem hx
    rw [← b.floats_plain, ← hplain, a.floats_plain] at hmem
    obtain ⟨y, hy, hyx⟩ := List.mem_map.mp hmem
    rw [← x.isZero_plain, ← hyx, y.isZero_plain, hzero y hy]
  rw [← Script.plain_of_noZero hzero, hplain, Script.plain_of_noZero hfloats]

/-! ## Sameness -/

/-- Symmetric and transitive, and reflexive on just those that hold numbers only. -/
structure IsSameness {α : Type} (same : α → α → Bool) (floats : α → List Single) : Prop where
  symm : ∀ a b, same a b = same b a
  trans : ∀ a b c, same a b = true → same b c = true → same a c = true
  self_iff : ∀ a, same a a = true ↔ ∀ x ∈ floats a, x.isNaN = false

theorem isSameness_of_plain {α : Type} {same : α → α → Bool} {floats : α → List Single}
    {plain : α → α}
    (hsame : ∀ a b, same a b = true ↔ AllNumbers (floats a) ∧ plain a = plain b)
    (hfloats : ∀ a, floats (plain a) = (floats a).map Single.plain) : IsSameness same floats := by
  have hnumbers : ∀ a b, plain a = plain b → AllNumbers (floats a) → AllNumbers (floats b) := by
    intro a b hplain ha x hx
    have hmem : x.plain ∈ (floats b).map Single.plain := List.mem_map_of_mem hx
    rw [← hfloats, ← hplain, hfloats] at hmem
    obtain ⟨y, hy, hyx⟩ := List.mem_map.mp hmem
    rw [← x.isNaN_plain, ← hyx, y.isNaN_plain, ha y hy]
  have hswap : ∀ a b, same a b = true → same b a = true := by
    intro a b h
    obtain ⟨ha, hplain⟩ := (hsame a b).mp h
    exact (hsame b a).mpr ⟨hnumbers a b hplain ha, hplain.symm⟩
  constructor
  · intro a b
    exact Bool.eq_iff_iff.mpr ⟨hswap a b, hswap b a⟩
  · intro a b c hab hbc
    obtain ⟨ha, hab⟩ := (hsame a b).mp hab
    obtain ⟨-, hbc⟩ := (hsame b c).mp hbc
    exact (hsame a c).mpr ⟨ha, hab.trans hbc⟩
  · intro a
    exact (hsame a a).trans (and_iff_left rfl)

/-- Sameness of trees is symmetric and transitive, and a tree is the same as itself if and only if
there is no not-a-number in it. Scripts that are the same and hold no zeros are written alike. -/
theorem sameness_of_trees :
    IsSameness Expr.same Expr.floats ∧ IsSameness Stmt.same Stmt.floats ∧
    IsSameness Decl.same Decl.floats ∧ IsSameness Script.same Script.floats ∧
    ∀ a b : Script, a.same b = true → (∀ x ∈ a.floats, x.isZero = false) → ∀ o : Options,
      a.toText o = b.toText o ∧ ∀ w : Writer, a.outcome w o = b.outcome w o := by
  refine ⟨isSameness_of_plain Expr.same_iff Expr.floats_plain,
    isSameness_of_plain Stmt.same_iff Stmt.floats_plain,
    isSameness_of_plain Decl.same_iff Decl.floats_plain,
    isSameness_of_plain Script.same_iff Script.floats_plain, ?_⟩
  intro a b hsame hzero o
  obtain rfl : a = b := Script.eq_of_same hsame hzero
  exact ⟨rfl, fun _ => rfl⟩

/-- The two zeros are the same with different texts, so scripts with zeros in them are left out. -/
theorem sameness_of_trees_zero :
    let script (bits : UInt32) : Script := ⟨[], [.var ⟨none, "float", "x", some (.float ⟨bits⟩)⟩]⟩
    let plainly : Options := { sectionBanners := false }
    (script 0x3FC00000).same (script 0x3FC00000) = true ∧
    (script 0x3FC00000).toText {} = (script 0x3FC00000).toText {} ∧
    ¬ (script 0x7FC00000).same (script 0x7FC00000) = true ∧
    (script 0).same (script 0x80000000) = true ∧
    ((script 0).toText plainly).1.toOption = some "float x = 0f;\n" ∧
    ((script 0x80000000).toText plainly).1.toOption = some "float x = -0f;\n" := by
  intro script plainly
  obtain ⟨-, -, -, hscripts, hwritten⟩ := sameness_of_trees
  have hnumber : (script 0x3FC00000).same (script 0x3FC00000) = true :=
    (hscripts.self_iff _).mpr (by decide)
  have hzero : (script 0).same (script 0x80000000) = true := by
    decide +kernel
  refine ⟨hnumber, (hwritten _ _ hnumber (by decide) {}).1, ?_, hzero, ?_, ?_⟩
  · exact fun h => absurd ((hscripts.self_iff _).mp h) (by decide)
  · decide +kernel
  · decide +kernel

end Scribe
