import Reckoner.Separator

namespace Reckoner

def commaLanguages : List String :=
  ["az", "be", "bg", "bs", "ca", "cs", "da", "de", "el", "es", "et", "eu", "fi", "fo", "fr", "gl",
    "hr", "hu", "hy", "id", "is", "it", "ka", "kk", "ky", "lt", "lv", "mk", "mn", "nb", "nl", "nn",
    "no", "pl", "pt", "ro", "ru", "sk", "sl", "sq", "sr", "sv", "tr", "uk", "uz", "vi"]

/-- Variables that name the locale, the one that takes precedence first. -/
def localeVariables : List String :=
  ["LC_ALL", "LC_NUMERIC", "LANG"]

/-- The language of a locale name such as `de_DE.UTF-8@euro`, in ASCII lower
case. -/
def localeLanguage (name : String) : String :=
  String.ofList ((name.toList.takeWhile (· ∉ ['_', '.', '@', '-'])).map Char.toLower)

namespace Separator

def ofLocale (name : String) : Separator :=
  if commaLanguages.contains (localeLanguage name) then .comma else .point

/-- The separator of the first locale variable that is set and not empty. -/
def ofEnvironment (lookup : String → Option String) : Separator :=
  match (localeVariables.filterMap lookup).find? (!·.isEmpty) with
  | some name => ofLocale name
  | none => .point

end Separator

end Reckoner
