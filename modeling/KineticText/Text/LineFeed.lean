/-!
# Line feeds

A text file may end its lines with a carriage return, a line feed, or both.
Inside the program every line ends with a line feed.
-/

namespace KineticText.Text

/-- The text in reverse in front of `read`, with a line feed for every end of a
line; `afterReturn` says whether a carriage return stands in front of it. -/
def lineFeedsFrom (read : List Char) (afterReturn : Bool) : List Char → List Char
  | [] => read
  | c :: rest =>
    if c = '\r' then lineFeedsFrom ('\n' :: read) true rest
    else if c = '\n' && afterReturn then lineFeedsFrom read false rest
    else lineFeedsFrom (c :: read) false rest

def lineFeeds (s : List Char) : List Char := (lineFeedsFrom [] false s).reverse

end KineticText.Text
