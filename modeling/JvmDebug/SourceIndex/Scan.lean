import JvmDebug.FileTree
import JvmDebug.SourceIndex.Basic
import JvmDebug.SourceIndex.TargetFile

/-!
# Indexing a workspace

All target files below the output folder are read; one that is not as it should be is passed over.
-/

namespace JvmDebug
set_option autoImplicit false

namespace SourceIndex

def outputFolder : String := "bazel-out"
def targetFileSuffix : String := "kotlin-lsp.json"

def addTarget (index : SourceIndex) (sources : List TargetSource) : SourceIndex :=
  sources.foldl (fun index s => s.names.foldl (fun index name => index.insert ⟨s.path⟩ name) index) index

def isTargetFile (f : FileTree.Found) : Bool := f.name.endsWith targetFileSuffix

/-- The folder of a workspace into which the build writes. -/
def output (workspace : Path) : Path := workspace.join ⟨outputFolder⟩

/-- The target files of a workspace with what they list. -/
def targetFiles (tree : FileTree) (workspace : Path) :
    List (FileTree.Found × Except String (List TargetSource)) :=
  ((tree.filesBelow (output workspace)).filter isTargetFile).map fun f => (f, TargetSource.ofFile f.content)

def ofTargets (targets : List (List TargetSource)) : SourceIndex := targets.foldl addTarget {}

/-- The index of a workspace; the files are taken in the order in which they are found. -/
def scan (tree : FileTree) (workspace : Path) : SourceIndex :=
  ofTargets ((targetFiles tree workspace).filterMap (·.2.toOption))

/-- Whether a workspace has been built. -/
def isBuilt (tree : FileTree) (workspace : Path) : Bool := (tree.find (output workspace)).isOk

end SourceIndex
end JvmDebug
