import ApiSurface.Declaration
import ApiSurface.Page.Markdown
import ApiSurface.Settings.Load
import ApiSurface.View.Json
import ApiSurface.View.OfDescriptor

/-!
# Generating documentation and declarations

Documentation of a language is a list of files in a directory named by its tag: every view as JSON,
the index, the guides and a page for every view. All views and guides of all languages are made
before the first file is written, so a fault in any of them leaves the files as they were.

A write that fails ends the run; what was written before it stays.
-/

namespace ApiSurface

/-- Why a run failed. -/
inductive Failure where
  | load (e : LoadError)
  | parse (e : ParseError)
  | order (e : OrderError)
  | guide (e : GuideError)
  | settings (e : SettingsError)
  /-- A file of documentation, or the directory it belongs in, could not be written. -/
  | page (path : String) (fault : FileFault)
  /-- The file of declarations, or the directory it belongs in, could not be written. -/
  | declarations (path : String) (fault : FileFault)
deriving DecidableEq, Repr

namespace Failure

/-- What is said about a failure, without the fault of a file behind it. -/
def message : Failure → String
  | load e => e.message
  | parse e => e.message
  | order e => e.message
  | guide e => e.message
  | settings e => e.message
  | page path _ => "failed to write " ++ path
  | declarations path _ => "failed to write " ++ path

/-- The fault of a file behind a failure. -/
def fault? : Failure → Option FileFault
  | load e => e.fault?
  | guide e => e.fault?
  | page _ fault => some fault
  | declarations _ fault => some fault
  | _ => none

/-- All that is said about a failure. -/
def report (f : Failure) : String :=
  match f.fault? with
  | some fault => f.message ++ ": " ++ fault.message
  | none => f.message

end Failure

/-- A file to be written. -/
structure Page where
  path : String
  text : String
deriving DecidableEq, Repr

/-- The files written for one language. -/
structure WrittenDocs where
  language : Language
  directory : String
  files : List String
deriving DecidableEq, Repr

/-- All that the documentation of one language is made from. -/
structure PreparedDocs where
  language : Language
  views : List EntityView
  guides : List Guide

/-- What a page is made from: the documentation of its language and the links between pages. -/
structure PageContext extends PreparedDocs where
  links : Links

/-- Makes the texts of pages. Where they are written is not its concern. -/
structure Renderer where
  /-- The extension of pages, without the point. -/
  extension : String
  index : PageContext → String
  entity : PageContext → EntityView → String
  guide : PageContext → Guide → String

/-- Makes pages in Markdown. -/
def Renderer.markdown (title : Option String) : Renderer where
  extension := Page.extension
  index cx := Page.indexText title cx.language cx.links cx.views cx.guides
  entity cx v := Page.entityText cx.links v
  guide _ g := Page.guideText g

namespace Generation

open FileTree (andThen mapError)

/-! ## Documentation -/

/-- Makes the views and reads the guides for a language. -/
def prepare (s : Settings) (files : FileTree) (es : List Entity) (l : Language) :
    Except Failure PreparedDocs := do
  let views ← (Entity.views s.rules l es).mapError .parse
  let guides ← match s.guides with
    | some directory => (Guide.load files directory l).mapError .guide
    | none => .ok []
  return { language := l, views, guides }

/-- The path of a file in one of the directories of a language, by its id and extension. -/
def pagePath (directory inside id extension : String) : String :=
  Path.join (Path.join directory inside) (id ++ "." ++ extension)

/-- The files of one language in the order in which they are written. -/
def pages (r : Renderer) (directory : String) (input : PreparedDocs) : List Page :=
  let cx : PageContext := { input with links := Links.ofViews input.views }
  input.views.map (fun v => ⟨pagePath directory Page.entityDirectory v.id "json", v.json⟩)
    ++ [⟨Path.join directory ("index." ++ r.extension), r.index cx⟩]
    ++ input.guides.map
      (fun g => ⟨pagePath directory Page.guideDirectory g.id r.extension, r.guide cx g⟩)
    ++ input.views.map
      (fun v => ⟨pagePath directory Page.entityDirectory v.id r.extension, r.entity cx v⟩)

/-- Writes a file and the directories above it. A failure names the path that could not be made. -/
def writePage (failure : String → FileFault → Failure) (files : FileTree) (p : Page) :
    FileTree × Except Failure Unit :=
  let directory := Path.parent p.path
  andThen (mapError (failure directory) (files.makeDirectories directory)) fun made _ =>
    mapError (failure p.path) (made.settle ((made.write p.path p.text).map (·, ())))

/-- Writes files one after another up to the first failure. -/
def writePages (files : FileTree) : List Page → FileTree × Except Failure Unit
  | [] => (files, .ok ())
  | p :: rest => andThen (writePage .page files p) fun files _ => writePages files rest

/-- Writes the documentation of the prepared languages one after another. -/
def writeLanguages (r : Renderer) (out : String) (files : FileTree) :
    List PreparedDocs → FileTree × Except Failure (List WrittenDocs)
  | [] => (files, .ok [])
  | input :: rest =>
    let directory := Path.join out input.language.tag
    let ps := pages r directory input
    andThen (writePages files ps) fun files _ =>
      andThen (writeLanguages r out files rest) fun files outputs =>
        (files, .ok (⟨input.language, directory, ps.map (·.path)⟩ :: outputs))

/-- Writes the documentation of entities for every language of the settings. -/
def renderDocs (s : Settings) (r : Renderer) (files : FileTree) (es : List Entity)
    (out : String) : FileTree × Except Failure (List WrittenDocs) :=
  andThen (files, s.languages.mapM (prepare s files es)) (writeLanguages r out)

/-- Loads entities and writes their documentation. -/
def loadAndRenderDocs (s : Settings) (r : Renderer) (files : FileTree) (input out : String) :
    FileTree × Except Failure (List WrittenDocs) :=
  andThen (files, (Entity.load files input).mapError .load) fun files es =>
    renderDocs s r files es out

/-- Writes the documentation of entities in Markdown. -/
def writeDocs (s : Settings) (title : Option String) (files : FileTree) (es : List Entity)
    (out : String) : FileTree × Except Failure (List WrittenDocs) :=
  renderDocs s (.markdown title) files es out

/-- Loads entities and writes their documentation in Markdown. -/
def loadAndWriteDocs (s : Settings) (files : FileTree) (input out : String) :
    FileTree × Except Failure (List WrittenDocs) :=
  loadAndRenderDocs s (.markdown none) files input out

/-! ## Declarations -/

/-- The declaration file of entities. -/
def declarations (s : Settings) (es : List Entity) : Except Failure String := do
  let views ← (Entity.views s.rules .js es).mapError .parse
  (Declaration.file s.typeTexts s.declarationModule views).mapError .order

/-- Loads entities and makes their declaration file. -/
def loadDeclarations (s : Settings) (files : FileTree) (input : String) :
    Except Failure String := do
  let es ← (Entity.load files input).mapError .load
  declarations s es

/-- Loads entities and writes their declaration file. -/
def loadAndWriteDeclarations (s : Settings) (files : FileTree) (input target : String) :
    FileTree × Except Failure Unit :=
  andThen (files, loadDeclarations s files input) fun files text =>
    writePage .declarations files ⟨target, text⟩

end Generation

end ApiSurface
