import Mathlib.Tactic.Common

/-!
# Constants (`const.h`, `code.h`)
-/

namespace AsioServer

/-- `MAX_LENGTH`: the size of the receive buffer and the limit on both header
fields. -/
def maxLength : Nat := 2048

theorem maxLength_eq : maxLength = 2048 := rfl

def headTotalLen : Nat := 4
def headIdLen : Nat := 2
def maxSendque : Nat := 1000

/-! ## `MSG_IDS` -/

def msgHelloWord : Int := 1001
def msgRegister : Int := 1002
def msgLogin : Int := 1003
def msgLogout : Int := 1004
def msgAddFriend : Int := 1005
def msgCreateGroup : Int := 1006
def msgJoinGroup : Int := 1007
def msgOneChat : Int := 1008
def msgGroupChat : Int := 1009

/-! ## Reply codes -/

def codeRegisterSuccess : Int := 1001
def codeRegisterFailed : Int := 1002
def codeLoginSuccess : Int := 1003
def codeLoginFailed : Int := 1004
def codeAddFriendSuccess : Int := 1007
def codeAddFriendFailed : Int := 1008
def codeCreateGroupSuccess : Int := 1009
def codeJoinGroupSuccess : Int := 1011
def codeOneChatSuccess : Int := 1013
def codeOneChatFailed : Int := 1014

end AsioServer
