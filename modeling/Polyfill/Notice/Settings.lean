import Polyfill.Text.Basic

/-! # Settings of the notice detector -/

namespace Polyfill.Notice

/-- What the detector looks for. -/
structure Settings where
  /-- The simple name of the facade class. -/
  facade : Text := .ofString "Deprecation"
  /-- The methods that emit a notice. -/
  noticeMethods : List Text :=
    ["notice", "noticeWithNoReplacement", "noticeWithNoReplacment"].map .ofString
  /-- The methods that run a callback with notices suppressed. -/
  wrapperMethods : List Text := ["withSuppressedNotice", "withNoReplacement"].map .ofString
  /-- The phrases that mark a notice as being about the rename. -/
  phrases : List Text :=
    ["Will be renamed", "renamed to", "Will be moved to", "moved to"].map .ofString
  /-- A notice that cites the entry's own names counts, too. -/
  configAware : Bool := true
  deriving DecidableEq

end Polyfill.Notice
