import Enrollment.Log.Filter

/-! # Notices

What issuing has to say to those who run it.
-/

namespace Enrollment

inductive Notice where
  | proofKept
  | challengeUnsolved
  | authorizationUnfinished
  | authorizationsInvalid
  | orderInvalid
  | jobFailed
  | taskBroken
  | renewalNotPlaced
  | thresholdNegative
  | thresholdRange
  | inventoryUnread
  deriving DecidableEq, Repr

namespace Notice

def level : Notice → Log.Level
  | proofKept | challengeUnsolved | authorizationUnfinished | authorizationsInvalid
  | orderInvalid => .warn
  | jobFailed | taskBroken | renewalNotPlaced | thresholdNegative | thresholdRange
  | inventoryUnread => .error

def text : Notice → String
  | proofKept => "challenge kaynağı kaldırılamadı"
  | challengeUnsolved => "challenge çözülemedi"
  | authorizationUnfinished => "authorization tamamlanamadı"
  | authorizationsInvalid => "order authorization'ları geçersiz"
  | orderInvalid => "order geçersiz"
  | jobFailed => "order işi başarısız"
  | taskBroken => "order görevi düzgün sonlanmadı"
  | renewalNotPlaced => "yenileme order'ı oluşturulamadı"
  | thresholdNegative => "ACME yenileme eşiği negatif yapılandırıldı; zamanlayıcı durduruluyor"
  | thresholdRange => "ACME yenileme eşiği tarih aralığını aşıyor; zamanlayıcı durduruluyor"
  | inventoryUnread => "ACME yenileme taraması sırasında envanter okunamadı"

end Notice

end Enrollment
