/-!
# Readers of globs

Files and classes are selected by globs. What a glob matches is up to a reader of globs; nothing is assumed of it.
-/

namespace FieldInjection

/-- A set of texts. -/
structure Matcher where
  accepts : String → Bool

/-- What the globs for paths and those for names match, if they can be read. -/
class GlobReader where
  forPaths : String → Option Matcher
  forNames : String → Option Matcher

end FieldInjection
