import Scribe.Layout.Stmt
import Scribe.Options

/-! Layout of a whole script: imports, then the declarations in their own order. A banner stands
before the imports, before the first prototype and before the first variable. -/

namespace Scribe

namespace Layout

def banner (o : Options) (title : String) : Layout :=
  if o.sectionBanners then
    [.newline] ++ Comment.ownLine "" ++ Comment.ownLine title ++ Comment.ownLine "" ++ [.newline]
  else []

def importLine (file : String) : Layout :=
  [.text "import(", .text (Literal.quoted file), .text ")"] ++ semicolon

end Layout

namespace Script

def importSection (o : Options) (imports : List String) : Layout :=
  if imports.isEmpty then [] else Layout.banner o "Imports" ++ imports.flatMap Layout.importLine

/-- The banner due before `d` when `earlier` are the declarations before it. -/
def heading (o : Options) (earlier : List Decl) (d : Decl) : Layout :=
  if d.isPrototype && !earlier.any Decl.isPrototype then Layout.banner o "Function prototypes"
  else if d.isVariable && !earlier.any Decl.isVariable then
    Layout.banner o "Script-level variable definitions"
  else []

def declarationSections (o : Options) (earlier : List Decl) : List Decl → Layout
  | [] => []
  | d :: rest =>
    heading o earlier d ++ d.terminated o.elideTrailingReturn ++
      declarationSections o (d :: earlier) rest

def layout (o : Options) (s : Script) : Layout :=
  [.note (.script s.imports.length s.declarations.length)] ++ importSection o s.imports ++
    declarationSections o [] s.declarations

end Script

end Scribe
