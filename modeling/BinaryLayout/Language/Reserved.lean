import Std.Data.HashMap
import BinaryLayout.Language.ReservedWords

/-!
# Looking up reserved words

Where a reserved word comes from.  A word that several languages reserve counts for the first of
them.
-/

namespace BinaryLayout.Language

def reservedWords : Std.HashMap String String :=
  reservedWordLists.foldl
    (fun words (language, list) => list.foldl (fun words w => words.insertIfNew w language) words)
    ∅

def reservedIn (w : String) : Option String :=
  reservedWords[w]?

end BinaryLayout.Language
