/-!
# Flaws of YAML texts

Why a YAML text cannot be read to its end, or may not be used to the extent to which it is used.
-/

namespace WorkflowEngine.Yaml

/-- Why a YAML text cannot be read beyond some point, or may not be used further. -/
inductive Flaw where
  /-- A character that a YAML text may not hold. -/
  | controlCharacter
  /-- More tokens than there may be. -/
  | tooLong
  /-- No token where one is read. -/
  | endOfTokens
  /-- A character at which no token begins. -/
  | noToken
  /-- A colon that a plain scalar in brackets cannot have. -/
  | looseColon
  /-- A tab in the indentation of a plain scalar. -/
  | tabInIndentation
  /-- A tab in the indentation of a block. -/
  | tabForSpace
  /-- A block that is said to be indented by nought. -/
  | zeroIncrement
  /-- A quoted scalar without an end. -/
  | unclosedQuote
  /-- The bound of a document in a quoted scalar. -/
  | documentMarkInQuote
  /-- A backslash before a character that makes no escape. -/
  | unknownEscape
  /-- An escape without its hexadecimal digits. -/
  | noHexadecimal
  /-- An escape of a number that is no character. -/
  | invalidCode
  /-- No exclamation mark where a handle begins or ends. -/
  | noTagMark
  /-- A tag without characters. -/
  | noTagText
  /-- A tag in brackets without an end. -/
  | unclosedTag
  /-- A percent sign without two digits. -/
  | noEscapedByte
  /-- A byte that begins no character. -/
  | incorrectLeadingByte
  /-- A byte that continues no character. -/
  | incorrectTrailingByte
  /-- Bytes that make no character. -/
  | invalidBytes
  /-- An anchor without a name, or with a character that cannot follow it. -/
  | badAnchor
  /-- No blank and no end of the line. -/
  | noGap
  /-- No blank. -/
  | noBlank
  /-- A line that does not end where it has to. -/
  | noLineEnd
  /-- A directive without a name. -/
  | noDirectiveName
  /-- A character that cannot stand in the name of a directive. -/
  | badDirectiveName
  /-- A directive of another name. -/
  | unknownDirective
  /-- A version without a number. -/
  | noVersionNumber
  /-- A version with too many digits. -/
  | longVersionNumber
  /-- A version without a point. -/
  | noVersionPoint
  /-- A second version. -/
  | duplicateVersion
  /-- Another version of the language. -/
  | incompatibleVersion
  /-- A second meaning of a handle. -/
  | duplicateHandle
  /-- A handle that stands for nothing. -/
  | undefinedHandle
  /-- No colon after what had to be a key. -/
  | noColon
  /-- A dash where no item may stand. -/
  | misplacedDash
  /-- A question mark where no key may stand. -/
  | misplacedKey
  /-- A colon where no value may stand. -/
  | misplacedValue
  /-- No node where there has to be one. -/
  | noContent
  /-- No dash before an item. -/
  | noDash
  /-- No key before a value. -/
  | noKey
  /-- No comma between the items of a list in brackets. -/
  | noCommaOrBracket
  /-- No comma between the entries of a map in braces. -/
  | noCommaOrBrace
  /-- Directives without a document. -/
  | noDocumentStart
  /-- A second document. -/
  | moreThanOneDocument
  /-- A reference to an anchor that there is not. -/
  | unknownAnchor
  /-- References that are followed too often. -/
  | repetitionLimit
  /-- Lists and maps that nest too deep. -/
  | recursionLimit
  deriving DecidableEq, Repr, Inhabited

/-- The words for a flaw. -/
def Flaw.text : Flaw → String
  | .controlCharacter => "control characters are not allowed"
  | .tooLong => "the text is too long"
  | .endOfTokens => "unexpected end of tokens"
  | .noToken => "found character that cannot start any token"
  | .looseColon => "found unexpected ':'"
  | .tabInIndentation => "found a tab character that violates indentation"
  | .tabForSpace => "found a tab character where an indentation space is expected"
  | .zeroIncrement => "found an indentation indicator equal to 0"
  | .unclosedQuote => "found unexpected end of stream"
  | .documentMarkInQuote => "found unexpected document indicator"
  | .unknownEscape => "found unknown escape character"
  | .noHexadecimal => "did not find expected hexdecimal number"
  | .invalidCode => "found invalid Unicode character escape code"
  | .noTagMark => "did not find expected '!'"
  | .noTagText => "did not find expected tag URI"
  | .unclosedTag => "did not find the expected '>'"
  | .noEscapedByte => "did not find URI escaped octet"
  | .incorrectLeadingByte => "found an incorrect leading UTF-8 octet"
  | .incorrectTrailingByte => "found an incorrect trailing UTF-8 octet"
  | .invalidBytes => "found an invalid UTF-8 octet"
  | .badAnchor => "did not find expected alphabetic or numeric character"
  | .noGap => "did not find expected whitespace or line break"
  | .noBlank => "did not find expected whitespace"
  | .noLineEnd => "did not find expected comment or line break"
  | .noDirectiveName => "could not find expected directive name"
  | .badDirectiveName => "found unexpected non-alphabetical character"
  | .unknownDirective => "found unknown directive name"
  | .noVersionNumber => "did not find expected version number"
  | .longVersionNumber => "found extremely long version number"
  | .noVersionPoint => "did not find expected digit or '.' character"
  | .duplicateVersion => "found duplicate %YAML directive"
  | .incompatibleVersion => "found incompatible YAML document"
  | .duplicateHandle => "found duplicate %TAG directive"
  | .undefinedHandle => "found undefined tag handle"
  | .noColon => "could not find expected ':'"
  | .misplacedDash => "block sequence entries are not allowed in this context"
  | .misplacedKey => "mapping keys are not allowed in this context"
  | .misplacedValue => "mapping values are not allowed in this context"
  | .noContent => "did not find expected node content"
  | .noDash => "did not find expected '-' indicator"
  | .noKey => "did not find expected key"
  | .noCommaOrBracket => "did not find expected ',' or ']'"
  | .noCommaOrBrace => "did not find expected ',' or '\x7d'"
  | .noDocumentStart => "did not find expected <document start>"
  | .moreThanOneDocument =>
    "deserializing from YAML containing more than one document is not supported"
  | .unknownAnchor => "unknown anchor"
  | .repetitionLimit => "repetition limit exceeded"
  | .recursionLimit => "recursion limit exceeded"

end WorkflowEngine.Yaml
