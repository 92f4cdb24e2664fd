import CloneDetection.Path.Basic
import CloneDetection.Path.Glob

/-!
# Exclude and include patterns

Patterns are globs on paths relative to the root of a scan. A pattern with neither a slash nor a
double star is compared with the bare file name as well. `d/**` excludes every path that has `d` as
a run of whole components; a double star includes everything below what stands before it whose name
matches what stands after it.
-/
namespace CloneDetection

namespace Pattern

def defaultExcludes : List Text :=
  ["vendor/**", "node_modules/**", ".git/**", "testdata/**", "CHANGELOG*", "CHANGES*", "HISTORY*",
    "NEWS*",
   "third_party/**", "3rdparty/**", "extern/**", "external/**", "bower_components/**",
   "wwwroot/lib/**"].map String.toList

def withDefaults (excludes : List Text) : List Text :=
  defaultExcludes ++ excludes

def cutDoubleStar? : Text → Option (Text × Text)
  | '*' :: '*' :: rest => some ([], rest)
  | c :: rest => (cutDoubleStar? rest).map fun (before, after) => (c :: before, after)
  | [] => none

def isNamePattern (pattern : Text) : Bool :=
  !pattern.contains '/' && (cutDoubleStar? pattern).isNone

/-- Whether the glob matches the path, or its name where bare names count. -/
def matchesPath (path pattern : Text) : Bool :=
  globMatches pattern path || (isNamePattern pattern && globMatches pattern (Path.baseName path))

/-- The directory of a pattern that ends in a slash and a double star. -/
def directory? (pattern : Text) : Option Text :=
  if "/**".toList.isSuffixOf pattern then some (pattern.take (pattern.length - 3)) else none

def excludes (pattern path : Text) : Bool :=
  matchesPath path pattern ||
    match directory? pattern with
    | some directory => Text.hasInfix ('/' :: directory ++ ['/']) ('/' :: path ++ ['/'])
    | none => false

def includes (pattern path : Text) : Bool :=
  matchesPath path pattern ||
    match cutDoubleStar? pattern with
    | some (before, after) =>
      let name := if after.head? == some '/' then after.tail else after
      before.isPrefixOf path &&
        (name.isEmpty || globMatches name (Path.baseName (path.drop before.length)))
    | none => false

def anyExcludes (patterns : List Text) (path : Text) : Bool :=
  patterns.any (excludes · path)

def anyIncludes (patterns : List Text) (path : Text) : Bool :=
  patterns.any (includes · path)

end Pattern

end CloneDetection
