import CloneDetection.Path.Basic
import CloneDetection.Text.Lines
import CloneDetection.Text.Lower
import CloneDetection.Text.Utf8

/-!
# What the start of a file tells

A file is binary if its first bytes hold a zero byte, and also if they are missing: files that are
empty or cannot be read are passed over. A file is generated if its name or one of its first lines
says so.
-/
namespace CloneDetection

namespace Content

def sniffedBytes : Nat := 512

def headerBytes : Nat := 4096

def headerLines : Nat := 5

def looksBinary (head? : Option Bytes) : Bool :=
  match head? with
  | some head => head.isEmpty || head.contains 0
  | none => true

def generatedMarkers : List Text :=
  ["code generated", "@generated", "do not edit", "autogenerated", "auto-generated"].map
    String.toList

def hasGeneratedName (path : Text) : Bool :=
  "_string.go".toList.isSuffixOf (Path.baseName path)

def hasMarker (head : Bytes) : Bool :=
  ((Text.displayLines (Utf8.decodeLossy head).lower).take headerLines).any fun line =>
    generatedMarkers.any (Text.hasInfix · line)

def looksGenerated (head? : Option Bytes) : Bool :=
  head?.any hasMarker

def lines (bytes : Bytes) : List Text :=
  Text.fileLines (Utf8.decodeLossy bytes)

end Content

end CloneDetection
