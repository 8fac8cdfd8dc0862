import WorkflowEngine.Error
import WorkflowEngine.Text.LetterCase

/-!
# Requests and answers

What a fetch sends and what it gets: a method, an address and a JSON body; a status and a text. A
method is a word of the characters that tokens may have, in capital letters.
-/

namespace WorkflowEngine.Http

/-- A request. -/
structure Request where
  /-- The method, in capital letters. -/
  method : String
  /-- The address. -/
  url : String
  /-- What is sent along. -/
  body : Option Json

/-- An answer. -/
structure Response where
  /-- The status code. -/
  status : Nat
  /-- The text of the answer. -/
  body : String
  deriving DecidableEq, Repr

/-- Whether a character may stand in a token. -/
def isTokenChar (c : Char) : Bool :=
  c.isAlphanum ||
    c ∈ ['!', '#', '$', '%', '&', '\'', '*', '+', '-', '.', '^', '_', '\x60', '|', '~']

/-- The method that a text names. -/
def method? (text : String) : Option String :=
  let name := Text.toCapitals (Text.trim text)
  if !name.isEmpty && name.toList.all isTokenChar then some name else none

/-- The usual words for status codes. -/
def reasons : List (Nat × String) :=
  [(100, "Continue"), (101, "Switching Protocols"), (102, "Processing"), (200, "OK"),
    (201, "Created"), (202, "Accepted"), (203, "Non Authoritative Information"),
    (204, "No Content"), (205, "Reset Content"), (206, "Partial Content"), (207, "Multi-Status"),
    (208, "Already Reported"), (226, "IM Used"), (300, "Multiple Choices"),
    (301, "Moved Permanently"), (302, "Found"), (303, "See Other"), (304, "Not Modified"),
    (305, "Use Proxy"), (307, "Temporary Redirect"), (308, "Permanent Redirect"),
    (400, "Bad Request"), (401, "Unauthorized"), (402, "Payment Required"), (403, "Forbidden"),
    (404, "Not Found"), (405, "Method Not Allowed"), (406, "Not Acceptable"),
    (407, "Proxy Authentication Required"), (408, "Request Timeout"), (409, "Conflict"),
    (410, "Gone"), (411, "Length Required"), (412, "Precondition Failed"),
    (413, "Payload Too Large"), (414, "URI Too Long"), (415, "Unsupported Media Type"),
    (416, "Range Not Satisfiable"), (417, "Expectation Failed"), (418, "I'm a teapot"),
    (421, "Misdirected Request"), (422, "Unprocessable Entity"), (423, "Locked"),
    (424, "Failed Dependency"), (426, "Upgrade Required"), (428, "Precondition Required"),
    (429, "Too Many Requests"), (431, "Request Header Fields Too Large"),
    (451, "Unavailable For Legal Reasons"), (500, "Internal Server Error"),
    (501, "Not Implemented"), (502, "Bad Gateway"), (503, "Service Unavailable"),
    (504, "Gateway Timeout"), (505, "HTTP Version Not Supported"),
    (506, "Variant Also Negotiates"), (507, "Insufficient Storage"), (508, "Loop Detected"),
    (510, "Not Extended"), (511, "Network Authentication Required")]

/-- A status code with the usual words for it. -/
def statusLine (status : Nat) : String :=
  let words := ((reasons.find? (·.1 == status)).map Prod.snd).getD "<unknown status code>"
  s!"{status} {words}"

/-- Whether a status code reports success. -/
def isSuccess (status : Nat) : Bool := 200 ≤ status && status < 300

end WorkflowEngine.Http
