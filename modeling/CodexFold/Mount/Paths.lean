import Mathlib

/- The names of the mount.

   A path is the list of the components that `cleanPath` of the source leaves (the root is
   the empty list). What the source asks of a cleaned path by its first and last characters
   is asked here of its first and last components. The native file of a path lies at the
   same place below the native root, so one type serves for both. -/
namespace CodexFold.Mount

abbrev Component : Type := List Char

abbrev Path : Type := List Component

def sessions : Component := ['s', 'e', 's', 's', 'i', 'o', 'n', 's']

def archivedSessions : Component :=
  ['a', 'r', 'c', 'h', 'i', 'v', 'e', 'd', '_', 's', 'e', 's', 's', 'i', 'o', 'n', 's']

variable (path : Path)

def base : Component := path.getLastD []

def dir : Path := path.dropLast

def belowSessions : Path → Bool
  | first :: _ :: _ => first == sessions || first == archivedSessions
  | _ => false

def namespaceFilePath : Bool := belowSessions path

def canonicalSessionPath : Bool :=
  ['.', 'j', 's', 'o', 'n', 'l'].isSuffixOf (base path) && belowSessions path

def canonicalNamespacePath : Bool :=
  path == [] || path == [sessions] || path == [archivedSessions] || belowSessions path

def fskitOpenUnlinkPath : Bool :=
  canonicalNamespacePath path && ['.', 'n', 'f', 's', '.'].isPrefixOf (base path) && 5 < (base path).length

def nativeTransactionPath : Bool :=
  canonicalSessionPath path && !(['.', '_'].isPrefixOf (base path))

/-- A file the two predicates tell apart: the second is hidden from transactions. -/
example : nativeTransactionPath [sessions, ['a', '.', 'j', 's', 'o', 'n', 'l']] = true ∧
    nativeTransactionPath [sessions, ['.', '_', 'a', '.', 'j', 's', 'o', 'n', 'l']] = false := by decide

end CodexFold.Mount
