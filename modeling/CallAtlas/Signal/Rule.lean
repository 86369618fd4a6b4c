import CallAtlas.Facts.Location
import CallAtlas.Text.Sorted

/-!
# Sensitive methods

Which methods outside a program matter for its security, by the class they belong to and their name,
and how much each category of them matters.
-/

namespace CallAtlas.Signal

/-- Methods of one category. -/
structure Rule where
  category : String
  /-- A class, or a package if it ends in a slash. -/
  owner : String
  /-- The name of the method, empty for all methods of the owner. -/
  method : String
  deriving DecidableEq, Repr

/-- The rules that apply unless others are given. -/
def standardRules : List Rule :=
  [⟨"net", "java/net/Socket", ""⟩,
   ⟨"net", "java/net/ServerSocket", ""⟩,
   ⟨"net", "java/net/DatagramSocket", ""⟩,
   ⟨"net", "java/net/URL", "openConnection"⟩,
   ⟨"net", "java/net/URL", "openStream"⟩,
   ⟨"net", "java/net/HttpURLConnection", ""⟩,
   ⟨"net", "java/net/http/", ""⟩,
   ⟨"net", "javax/net/", ""⟩,
   ⟨"net", "java/nio/channels/SocketChannel", ""⟩,
   ⟨"net", "okhttp3/", ""⟩,
   ⟨"net", "org/apache/http/", ""⟩,
   ⟨"encryption", "javax/crypto/", ""⟩,
   ⟨"encryption", "java/security/MessageDigest", ""⟩,
   ⟨"encryption", "java/security/KeyStore", ""⟩,
   ⟨"encryption", "java/security/KeyPairGenerator", ""⟩,
   ⟨"encryption", "java/security/Signature", ""⟩,
   ⟨"encryption", "java/security/SecureRandom", ""⟩,
   ⟨"encryption", "android/security/keystore/", ""⟩,
   ⟨"exec", "java/lang/Runtime", "exec"⟩,
   ⟨"exec", "java/lang/ProcessBuilder", ""⟩,
   ⟨"reflection", "java/lang/reflect/", ""⟩,
   ⟨"reflection", "java/lang/Class", "forName"⟩,
   ⟨"reflection", "java/lang/Class", "getDeclaredMethod"⟩,
   ⟨"reflection", "java/lang/Class", "getMethod"⟩,
   ⟨"reflection", "java/lang/Class", "getDeclaredField"⟩,
   ⟨"reflection", "java/lang/invoke/MethodHandles$Lookup", "findVirtual"⟩,
   ⟨"reflection", "java/lang/invoke/MethodHandles$Lookup", "findStatic"⟩,
   ⟨"classload", "java/lang/ClassLoader", "defineClass"⟩,
   ⟨"classload", "java/lang/ClassLoader", "loadClass"⟩,
   ⟨"classload", "java/net/URLClassLoader", ""⟩,
   ⟨"classload", "dalvik/system/", ""⟩,
   ⟨"native", "java/lang/System", "loadLibrary"⟩,
   ⟨"native", "java/lang/System", "load"⟩,
   ⟨"native", "java/lang/Runtime", "loadLibrary"⟩,
   ⟨"serialize", "java/io/ObjectInputStream", "readObject"⟩,
   ⟨"serialize", "java/io/ObjectInputStream", "readUnshared"⟩,
   ⟨"serialize", "java/beans/XMLDecoder", ""⟩,
   ⟨"file", "java/io/FileInputStream", ""⟩,
   ⟨"file", "java/io/FileOutputStream", ""⟩,
   ⟨"file", "java/io/RandomAccessFile", ""⟩,
   ⟨"file", "java/io/File", "delete"⟩,
   ⟨"file", "java/nio/file/Files", ""⟩,
   ⟨"script", "javax/script/", ""⟩,
   ⟨"sms", "android/telephony/SmsManager", ""⟩,
   ⟨"telephony", "android/telephony/TelephonyManager", ""⟩,
   ⟨"location", "android/location/", ""⟩,
   ⟨"location", "com/google/android/gms/location/", ""⟩,
   ⟨"contacts", "android/provider/ContactsContract", ""⟩,
   ⟨"device", "android/provider/Settings$Secure", ""⟩,
   ⟨"device", "android/net/wifi/WifiInfo", "getMacAddress"⟩,
   ⟨"webview", "android/webkit/WebView", "addJavascriptInterface"⟩,
   ⟨"webview", "android/webkit/WebView", "evaluateJavascript"⟩,
   ⟨"webview", "android/webkit/WebView", "loadUrl"⟩,
   ⟨"camera", "android/hardware/camera2/", ""⟩,
   ⟨"camera", "android/hardware/Camera", ""⟩,
   ⟨"clipboard", "android/content/ClipboardManager", ""⟩,
   ⟨"attribution", "com/android/installreferrer/", ""⟩]

/-- The owner of a rule is this class or a package that it is in. -/
def Rule.coversOwner (r : Rule) (owner : String) : Bool :=
  if r.owner.endsWith "/" then r.owner.isPrefixOf owner else owner == r.owner

/-- The rule applies to a method of a class. -/
def Rule.covers (r : Rule) (owner method : String) : Bool :=
  r.coversOwner owner && (r.method == "" || r.method == method)

/-- The name of a member without its parameters. -/
def methodName (l : Location) : String :=
  String.ofList (Text.beforeFirst '(' l.member.toList)

/-- The categories of a method, ascending. -/
def classify (rules : List Rule) (l : Location) : List String :=
  let owner := String.ofList (Text.dropLeading '/' l.owner.toList)
  if owner = "" then []
  else Text.sortDistinct
    ((rules.filter fun r => r.covers owner (methodName l)).map Rule.category)

/-- How much a sensitive call matters. -/
inductive Severity where
  | high | medium | low
  deriving DecidableEq, Repr

namespace Severity

def text : Severity → String
  | .high => "high"
  | .medium => "medium"
  | .low => "low"

/-- The severity with a name. -/
def ofText? : String → Option Severity
  | "high" => some .high
  | "medium" => some .medium
  | "low" => some .low
  | _ => none

/-- The severity of a category. -/
def ofCategory (category : String) : Severity :=
  if ["exec", "classload", "native", "serialize", "script", "sms", "contacts",
      "webview"].contains category then .high
  else if ["net", "encryption", "reflection", "telephony", "location", "device", "camera",
      "attribution"].contains category then .medium
  else .low

/-- The place of a severity when the highest comes first. -/
def rank : Severity → Nat
  | .high => 0
  | .medium => 1
  | .low => 2

/-- The higher of two severities. -/
def max (a b : Severity) : Severity :=
  if a.rank ≤ b.rank then a else b

/-- The highest severity of categories, low without one. -/
def ofCategories (categories : List String) : Severity :=
  (categories.map ofCategory).foldl max .low

end Severity
end CallAtlas.Signal
