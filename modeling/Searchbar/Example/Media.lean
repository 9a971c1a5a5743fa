import Searchbar.Schema.Basic

/-!
# A media library

A schema with an option of every kind, as a library of books and films would have it. Only tags
may be given more than once.
-/

namespace Searchbar.Example

/-- The options of the media library. -/
def mediaOptions : List OptionSpec :=
  [{ name := "tag", title := some "Tag", multiple := true, kind := .string none },
   { name := "title", title := some "Title", kind := .string none },
   { name := "author", title := some "Author", kind := .string none },
   { name := "year", title := some "Year", kind := .number none },
   { name := "sort", title := some "Sort order", kind := .enum ["newest", "oldest", "name"] },
   { name := "archived", title := some "Archived", kind := .boolean }]

/-- **The schema of the media library**, without sources. -/
def media : Schema :=
  have h : Schema.fault? [] mediaOptions = none := by decide
  ⟨mediaOptions, Schema.sound_of_fault? h, (Schema.distinct_of_fault? h).1⟩

/-- Candidates for tags. -/
def tagCandidates : List Candidate :=
  [{ name := "rust", description := some "Rust language" }, { name := "ruby" },
   { name := "python" }, { name := "go" }]

/-- The schema of the media library, with candidates for tags from a source of the given
identity. -/
def mediaWithTags (id : Nat) : Schema :=
  media.setSource "tag" (.listed id tagCandidates)

end Searchbar.Example
