import DottedNames.Text

/-!
# Line ends of files

A file may end its lines with a line feed, with a carriage return, or with a carriage return and a
line feed. When a file is read, each of the three becomes one line feed.
-/

namespace DottedNames.Text

/-- The text with a line feed for every line end. -/
def unifyNewlines : Text → Text
  | [] => []
  | '\r' :: '\n' :: t => '\n' :: unifyNewlines t
  | '\r' :: t => '\n' :: unifyNewlines t
  | c :: t => c :: unifyNewlines t

end DottedNames.Text
