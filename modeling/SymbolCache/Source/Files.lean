import SymbolCache.Files.Tree

/-!
Source files in a file tree.
-/

namespace SymbolCache.Source

/-- Whether a path has a given extension, regardless of ASCII case. -/
def hasExtension (ext : String) (path : Path) : Bool :=
  (Path.extension? path).any fun found => Text.sameWord found.toList ext.toList

def isSourceFile (path : Path) : Bool := hasExtension "al" path

def isExportFile (path : Path) : Bool := hasExtension "txt" path

def sourceFiles (tree : FileTree) (root : Path) : List Path :=
  Path.sort ((tree.filesUnder root).filter isSourceFile)

def objectFiles (tree : FileTree) (root : Path) : List Path :=
  Path.sort ((tree.filesUnder root).filter fun path => isSourceFile path || isExportFile path)

/-- Content of a file as text, broken bytes replaced and byte order marks dropped. -/
def readLossy (tree : FileTree) (path : Path) : Except FileError (List Char) := do
  return Text.dropByteOrderMarks (Text.decodeLossy (← tree.read path))

end SymbolCache.Source
